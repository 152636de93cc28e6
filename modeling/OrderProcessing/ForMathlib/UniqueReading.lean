import Mathlib.Data.List.Forall2

/-!
# Texts that can be read in one way only

A writer turns values into texts, and texts are put next to each other. That nothing is lost can be
said without a parser: if two texts in front of some rest agree as a whole, then the values agree,
up to a relation, and so do the rests. Where a text ends may depend on what follows, so the rests
are taken from a set of contexts.

## Main definitions

* `UniqueReading.Stops` — the contexts that are empty or begin with a stop symbol
* `UniqueReading.ReadsAs` — the text of a value can be told from every other text, with its end
* `UniqueReading.joined` — texts with a separator between them

## Main results

* `UniqueReading.eq_of_append_eq` — texts without stop symbols, in contexts that begin with one
* `UniqueReading.joined_unique` — a separated and terminated list of readable texts
-/

namespace UniqueReading

variable {α β : Type*}

/-- Nothing follows, or a stop symbol does. -/
def Stops (stop : α → Prop) : List α → Prop
  | [] => True
  | a :: _ => stop a

/-- The text of `b` determines `b` up to `R`, and where it ends. -/
def ReadsAs (stop : α → Prop) (text : β → List α) (R : β → β → Prop) (b : β) : Prop :=
  ∀ b' r r', Stops stop r → Stops stop r' → text b ++ r = text b' ++ r' → R b b' ∧ r = r'

/-- Two texts without stop symbols end where the stop symbols begin. -/
theorem eq_of_append_eq {stop : α → Prop} {xs ys r r' : List α} (hxs : ∀ a ∈ xs, ¬ stop a)
    (hys : ∀ a ∈ ys, ¬ stop a) (hr : Stops stop r) (hr' : Stops stop r')
    (h : xs ++ r = ys ++ r') : xs = ys ∧ r = r' := by
  induction xs generalizing ys with
  | nil =>
    cases ys with
    | nil => exact ⟨rfl, h⟩
    | cons b ys =>
      rw [List.nil_append] at h
      subst h
      exact absurd hr (hys b (List.mem_cons_self ..))
  | cons a xs ih =>
    cases ys with
    | nil =>
      rw [List.nil_append] at h
      subst h
      exact absurd hr' (hxs a (List.mem_cons_self ..))
    | cons b ys =>
      rw [List.cons_append, List.cons_append, List.cons.injEq] at h
      obtain ⟨rfl, h⟩ := h
      obtain ⟨rfl, rfl⟩ := ih (fun c hc => hxs c (List.mem_cons_of_mem _ hc))
        (fun c hc => hys c (List.mem_cons_of_mem _ hc)) h
      exact ⟨rfl, rfl⟩

/-! ### Lists -/

section Joined

variable {stop : α → Prop} {text : β → List α} {R : β → β → Prop} {sep close : α}

/-- The texts of the members, with a separator between them. -/
def joined (sep : α) (text : β → List α) (l : List β) : List α := [sep].intercalate (l.map text)

/-- All members but the first, each after a separator. -/
def separated (sep : α) (text : β → List α) : List β → List α
  | [] => []
  | b :: l => sep :: (text b ++ separated sep text l)

theorem joined_cons (b : β) (l : List β) :
    joined sep text (b :: l) = text b ++ separated sep text l := by
  induction l generalizing b with
  | nil => simp [joined, separated]
  | cons c l ih =>
    have hc := ih c
    rw [joined, List.map_cons] at hc
    rw [joined, List.map_cons, List.map_cons, List.intercalate_cons_cons, hc, separated]
    simp

theorem stops_separated (hsep : stop sep) (hclose : stop close) (l : List β) (r : List α) :
    Stops stop (separated sep text l ++ close :: r) := by
  cases l with
  | nil => exact hclose
  | cons b l => exact hsep

theorem separated_unique (hne : sep ≠ close) (hsep : stop sep) (hclose : stop close) {l m : List β}
    (hl : ∀ b ∈ l, ReadsAs stop text R b) {r r' : List α}
    (h : separated sep text l ++ close :: r = separated sep text m ++ close :: r') :
    List.Forall₂ R l m ∧ r = r' := by
  induction l generalizing m with
  | nil =>
    cases m with
    | nil => exact ⟨.nil, (List.cons.inj h).2⟩
    | cons c m => exact absurd (List.cons.inj h).1.symm hne
  | cons b l ih =>
    cases m with
    | nil => exact absurd (List.cons.inj h).1 hne
    | cons c m =>
      rw [separated, separated, List.cons_append, List.cons_append, List.cons.injEq,
        List.append_assoc, List.append_assoc] at h
      obtain ⟨hbc, hrest⟩ := hl b (List.mem_cons_self ..) c _ _ (stops_separated hsep hclose l r)
        (stops_separated hsep hclose m r') h.2
      obtain ⟨hlm, hr⟩ := ih (fun d hd => hl d (List.mem_cons_of_mem _ hd)) hrest
      exact ⟨.cons hbc hlm, hr⟩

/-- **A terminated list of readable texts is readable**, if no text is empty or begins with the
closing symbol. -/
theorem joined_unique (hne : sep ≠ close) (hsep : stop sep) (hclose : stop close)
    (hhead : ∀ b, ∃ a s, text b = a :: s ∧ a ≠ close) {l m : List β}
    (hl : ∀ b ∈ l, ReadsAs stop text R b) {r r' : List α}
    (h : joined sep text l ++ close :: r = joined sep text m ++ close :: r') :
    List.Forall₂ R l m ∧ r = r' := by
  cases l with
  | nil =>
    cases m with
    | nil => exact ⟨.nil, (List.cons.inj h).2⟩
    | cons c m =>
      obtain ⟨a, s, hc, ha⟩ := hhead c
      rw [joined_cons, hc] at h
      exact absurd (List.cons.inj h).1.symm ha
  | cons b l =>
    cases m with
    | nil =>
      obtain ⟨a, s, hb, ha⟩ := hhead b
      rw [joined_cons, hb] at h
      exact absurd (List.cons.inj h).1 ha
    | cons c m =>
      rw [joined_cons, joined_cons, List.append_assoc, List.append_assoc] at h
      obtain ⟨hbc, hrest⟩ := hl b (List.mem_cons_self ..) c _ _ (stops_separated hsep hclose l r)
        (stops_separated hsep hclose m r') h
      obtain ⟨hlm, hr⟩ := separated_unique hne hsep hclose
        (fun d hd => hl d (List.mem_cons_of_mem _ hd)) hrest
      exact ⟨.cons hbc hlm, hr⟩

end Joined

end UniqueReading
