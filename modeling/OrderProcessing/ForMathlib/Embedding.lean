import OrderProcessing.ForMathlib.Interleave
import Mathlib.Logic.Function.Basic

/-!
# A system of activations inside another one

Some activations of a system *show* an activation of another system, namely the one that they are
currently running; the others show nothing. An activation may finish what it runs and start
something new, as a loop does that calls one function again and again. So the shown activations are
not numbered like those that show them: an injection gives their numbers.

## What is deliberately absent

A step that the inner system cannot take at all may still be explained, by inner activations that
are started and never resumed (`Spawns`). Nothing is said about how the explained runs end; this is
a tool for safety only.

## Main definitions

* `Interleave.Embeds` — which activation of the inner system each activation shows
* `Interleave.Embedding` — how each step is explained by the inner system

## Main results

* `Interleave.Embedding.reachable` — every run contains a run of the inner system
-/

namespace Interleave

open Run

variable {σ κ ρ ι σ' κ' ρ' ι' : Type*}

/-! ### Shown activations -/

/-- What activation `i` shows. -/
def shown (view : κ → Option κ') (l : List κ) (i : ℕ) : Option κ' := (l[i]?).bind view

variable {view : κ → Option κ'} {l : List κ} {l' : List κ'} {k k₁ : κ} {k' k₁' : κ'} {i : ℕ}

theorem shown_eq_some_iff :
    shown view l i = some k' ↔ ∃ k, l[i]? = some k ∧ view k = some k' :=
  Option.bind_eq_some_iff

theorem shown_append (k : κ) (i : ℕ) :
    shown view (l ++ [k]) i = if i = l.length then view k else shown view l i := by
  by_cases hi : i = l.length
  · rw [if_pos hi, hi, shown, List.getElem?_concat_length]
    rfl
  · rw [if_neg hi, shown, shown]
    rcases Nat.lt_or_ge i l.length with hlt | hge
    · rw [List.getElem?_append_left hlt]
    · rw [List.getElem?_eq_none hge, List.getElem?_eq_none]
      rw [List.length_append, List.length_singleton]
      omega

theorem shown_set (hi : l[i]? = some k) (k₁ : κ) (j : ℕ) :
    shown view (l.set i k₁) j = if j = i then view k₁ else shown view l j := by
  by_cases hj : j = i
  · rw [if_pos hj, hj, shown, getElem?_set_of_some hi]
    rfl
  · rw [if_neg hj, shown, shown, List.getElem?_set_ne (Ne.symm hj)]

/-- `number` gives the number of what each activation shows, and two activations never show the same
one. -/
structure EmbedsAt (view : κ → Option κ') (l : List κ) (l' : List κ') (number : ℕ → ℕ) : Prop where
  shows : ∀ {i k'}, shown view l i = some k' → l'[number i]? = some k'
  injective : ∀ {i j k k'}, shown view l i = some k → shown view l j = some k' →
    number i = number j → i = j

/-- Every activation of `l` that shows something shows an activation of `l'` of its own. -/
def Embeds (view : κ → Option κ') (l : List κ) (l' : List κ') : Prop :=
  ∃ number, EmbedsAt view l l' number

namespace Embeds

theorem nil : Embeds view [] l' :=
  ⟨id, fun h => by simp [shown] at h, fun h => by simp [shown] at h⟩

/-- What one activation shows. -/
theorem exists_getElem? (h : Embeds view l l') (hi : l[i]? = some k) (hk : view k = some k') :
    ∃ j : ℕ, l'[j]? = some k' := by
  obtain ⟨number, hnumber⟩ := h
  exact ⟨number i, hnumber.shows (shown_eq_some_iff.mpr ⟨k, hi, hk⟩)⟩

theorem mem (h : Embeds view l l') (hmem : k ∈ l) (hk : view k = some k') : k' ∈ l' := by
  obtain ⟨i, hi⟩ := List.mem_iff_getElem?.mp hmem
  obtain ⟨j, hj⟩ := h.exists_getElem? hi hk
  exact List.mem_of_getElem? hj

/-- More activations may be there than are shown. -/
theorem append_right (h : Embeds view l l') (new : List κ') : Embeds view l (l' ++ new) := by
  obtain ⟨number, hnumber⟩ := h
  refine ⟨number, fun {i k'} hi => ?_, hnumber.injective⟩
  have hget := hnumber.shows hi
  rwa [List.getElem?_append_left (List.getElem?_eq_some_iff.mp hget).1]

theorem append_hidden (h : Embeds view l l') (hk : view k = none) : Embeds view (l ++ [k]) l' := by
  obtain ⟨number, hnumber⟩ := h
  have hshown : ∀ {i k'}, shown view (l ++ [k]) i = some k' → shown view l i = some k' := by
    intro i k' hi
    rw [shown_append] at hi
    split at hi
    · simp [hk] at hi
    · exact hi
  exact ⟨number, fun hi => hnumber.shows (hshown hi),
    fun hi hj => hnumber.injective (hshown hi) (hshown hj)⟩

/-- Two activations that show something, after `a` has been made to show a new one. -/
theorem update_number {number : ℕ → ℕ} {a : ℕ} {shown' : ℕ → Option κ'}
    (h : EmbedsAt view l l' number)
    (hshown : ∀ j, shown' j = if j = a then some k' else shown view l j) :
    (∀ {i k₁'}, shown' i = some k₁' →
      (l' ++ [k'])[Function.update number a l'.length i]? = some k₁') ∧
    ∀ {i j k₁ k₂}, shown' i = some k₁ → shown' j = some k₂ →
      Function.update number a l'.length i = Function.update number a l'.length j → i = j := by
  have hlt : ∀ {i k₁'}, shown view l i = some k₁' → number i < l'.length := fun hi =>
    (List.getElem?_eq_some_iff.mp (h.shows hi)).1
  constructor
  · intro i k₁' hi
    rw [hshown] at hi
    by_cases hia : i = a
    · rw [if_pos hia] at hi
      rw [hia, Function.update_self, List.getElem?_concat_length, hi]
    · rw [if_neg hia] at hi
      rw [Function.update_of_ne hia, List.getElem?_append_left (hlt hi), h.shows hi]
  · intro i j k₁ k₂ hi hj heq
    rw [hshown] at hi hj
    by_cases hia : i = a <;> by_cases hja : j = a
    · rw [hia, hja]
    · rw [if_neg hja] at hj
      rw [hia, Function.update_self, Function.update_of_ne hja] at heq
      have := hlt hj
      omega
    · rw [if_neg hia] at hi
      rw [hja, Function.update_self, Function.update_of_ne hia] at heq
      have := hlt hi
      omega
    · rw [if_neg hia] at hi
      rw [if_neg hja] at hj
      rw [Function.update_of_ne hia, Function.update_of_ne hja] at heq
      exact h.injective hi hj heq

/-- An activation starts, and shows one that starts. -/
theorem append (h : Embeds view l l') (hk : view k = some k') :
    Embeds view (l ++ [k]) (l' ++ [k']) := by
  obtain ⟨number, hnumber⟩ := h
  have hshown : ∀ j, shown view (l ++ [k]) j
      = if j = l.length then some k' else shown view l j := by
    intro j
    rw [shown_append, hk]
  obtain ⟨hshows, hinj⟩ := update_number hnumber hshown
  exact ⟨_, hshows, hinj⟩

/-- An activation stops showing what it has shown, and shows one that starts. -/
theorem restart (h : Embeds view l l') (hi : l[i]? = some k) (hk₁ : view k₁ = some k₁') :
    Embeds view (l.set i k₁) (l' ++ [k₁']) := by
  obtain ⟨number, hnumber⟩ := h
  have hshown : ∀ j, shown view (l.set i k₁) j = if j = i then some k₁' else shown view l j := by
    intro j
    rw [shown_set hi, hk₁]
  obtain ⟨hshows, hinj⟩ := update_number hnumber hshown
  exact ⟨_, hshows, hinj⟩

/-- A step that cannot be seen. -/
theorem set_of_view_eq (h : Embeds view l l') (hi : l[i]? = some k) (hk₁ : view k₁ = view k) :
    Embeds view (l.set i k₁) l' := by
  obtain ⟨number, hnumber⟩ := h
  have hshown : ∀ j, shown view (l.set i k₁) j = shown view l j := by
    intro j
    rw [shown_set hi, hk₁]
    split
    · next hj => rw [hj, shown, hi]; rfl
    · rfl
  exact ⟨number, fun hj => hnumber.shows ((hshown _).symm.trans hj),
    fun hj hj' => hnumber.injective ((hshown _).symm.trans hj) ((hshown _).symm.trans hj')⟩

/-- The activation that is shown takes a step. -/
theorem exists_set (h : Embeds view l l') (hi : l[i]? = some k) (hk : view k = some k') :
    ∃ j : ℕ, l'[j]? = some k' ∧
      ∀ k₁ k₁', view k₁ = some k₁' → Embeds view (l.set i k₁) (l'.set j k₁') := by
  obtain ⟨number, hnumber⟩ := h
  have hshown : shown view l i = some k' := shown_eq_some_iff.mpr ⟨k, hi, hk⟩
  refine ⟨number i, hnumber.shows hshown, fun k₁ k₁' hk₁ => ⟨number, ?_, ?_⟩⟩
  · intro j k₂ hj
    rw [shown_set hi] at hj
    by_cases hji : j = i
    · rw [if_pos hji, hk₁] at hj
      rw [hji, getElem?_set_of_some (hnumber.shows hshown), hj]
    · rw [if_neg hji] at hj
      have hne : number i ≠ number j := fun heq => hji (hnumber.injective hshown hj heq).symm
      rw [List.getElem?_set_ne hne, hnumber.shows hj]
  · intro j j' k₂ k₂' hj hj' heq
    have hsome : ∀ {j k₂}, shown view (l.set i k₁) j = some k₂ →
        ∃ k₂', shown view l j = some k₂' := by
      intro j k₂ hj
      rw [shown_set hi] at hj
      by_cases hji : j = i
      · exact ⟨k', hji ▸ hshown⟩
      · rw [if_neg hji] at hj
        exact ⟨k₂, hj⟩
    obtain ⟨_, hj⟩ := hsome hj
    obtain ⟨_, hj'⟩ := hsome hj'
    exact hnumber.injective hj hj' heq

end Embeds

/-! ### The rule -/

section Rule

variable {start : σ → ρ → Option (σ × κ)} {act : σ → κ → ι → Option (σ × κ)} {p : ι → Prop}
  {start' : σ' → ρ' → Option (σ' × κ')} {act' : σ' → κ' → ι' → Option (σ' × κ')} {p' : ι' → Prop}
  {K : σ' → Prop} {f : σ → σ'}

/-- New activations, none of which is resumed, lead from `w` to `w₁`. -/
def Spawns (start' : σ' → ρ' → Option (σ' × κ')) (act' : σ' → κ' → ι' → Option (σ' × κ'))
    (p' : ι' → Prop) (w w₁ : σ') : Prop :=
  ∀ l, ∃ new, Reachable (step start' act') (Action.Inputs p') ⟨w, l⟩ ⟨w₁, l ++ new⟩

theorem Spawns.refl (w : σ') : Spawns start' act' p' w w :=
  fun l => ⟨[], by rw [List.append_nil]; exact .refl _⟩

theorem Spawns.trans {w w₁ w₂ : σ'} (h : Spawns start' act' p' w w₁)
    (h' : Spawns start' act' p' w₁ w₂) : Spawns start' act' p' w w₂ := by
  intro l
  obtain ⟨new, hnew⟩ := h l
  obtain ⟨new', hnew'⟩ := h' (l ++ new)
  exact ⟨new ++ new', by rw [← List.append_assoc]; exact hnew.trans hnew'⟩

theorem Spawns.of_start {w w₁ : σ'} {request : ρ'} (h : start' w request = some (w₁, k')) :
    Spawns start' act' p' w w₁ :=
  fun _ => ⟨[k'], .single (a := .invoke request) trivial (step_invoke_eq_some.mpr ⟨w₁, k', h, rfl⟩)⟩

/-- How the steps of a system are explained by another one. A new activation shows a new one, or it
shows nothing and new ones explain what it does. A step of an activation is one of what it shows, or
it starts to show a new one, or nothing can be seen of it. What is known of the shared states of the
other system, `K`, may be used. -/
structure Embedding (start : σ → ρ → Option (σ × κ)) (act : σ → κ → ι → Option (σ × κ))
    (p : ι → Prop) (start' : σ' → ρ' → Option (σ' × κ')) (act' : σ' → κ' → ι' → Option (σ' × κ'))
    (p' : ι' → Prop) (K : σ' → Prop) (f : σ → σ') (view : κ → Option κ') : Prop where
  start : ∀ {w request w₁ k}, K (f w) → start w request = some (w₁, k) →
    (∃ request' k', start' (f w) request' = some (f w₁, k') ∧ view k = some k') ∨
      (view k = none ∧ Spawns start' act' p' (f w) (f w₁))
  act : ∀ {w k input w₁ k₁}, K (f w) → p input → act w k input = some (w₁, k₁) →
    (∃ k' input' k₁', p' input' ∧ view k = some k' ∧ act' (f w) k' input' = some (f w₁, k₁') ∧
      view k₁ = some k₁') ∨
    (∃ request' k₁', start' (f w) request' = some (f w₁, k₁') ∧ view k₁ = some k₁') ∨
    (f w₁ = f w ∧ view k₁ = view k)

/-- The shared states agree, and each activation shows one of its own. -/
structure Embedded (f : σ → σ') (view : κ → Option κ') (s : State σ κ) (s' : State σ' κ') :
    Prop where
  shared : s'.shared = f s.shared
  embeds : Embeds view s.activations s'.activations

variable {s t : State σ κ} {s' : State σ' κ'}

/-- One step is explained by a run. -/
theorem Embedding.step {a : Action ρ ι} (h : Embedding start act p start' act' p' K f view)
    (hK : K s'.shared) (hs : Embedded f view s s') (ha : a.Inputs p)
    (hstep : Interleave.step start act s a = some t) :
    ∃ t', Reachable (Interleave.step start' act') (Action.Inputs p') s' t' ∧
      Embedded f view t t' := by
  obtain ⟨w', l'⟩ := s'
  obtain ⟨hshared, hembeds⟩ := hs
  obtain rfl : w' = f s.shared := hshared
  cases a with
  | invoke request =>
    obtain ⟨w, k, hk, rfl⟩ := step_invoke_eq_some.mp hstep
    rcases h.start hK hk with ⟨request', k', hk', hview⟩ | ⟨hview, hspawns⟩
    · exact ⟨_, .single (a := .invoke request') trivial (step_invoke_eq_some.mpr ⟨_, _, hk', rfl⟩),
        rfl, hembeds.append hview⟩
    · obtain ⟨new, hnew⟩ := hspawns l'
      exact ⟨_, hnew, rfl, (hembeds.append_hidden hview).append_right new⟩
  | resume i input =>
    obtain ⟨k, w, k₁, hi, hk₁, rfl⟩ := step_resume_eq_some.mp hstep
    rcases h.act hK ha hk₁ with ⟨k', input', k₁', hp', hview, hact, hview₁⟩ |
      ⟨request', k₁', hstart, hview₁⟩ | ⟨hw, hview⟩
    · obtain ⟨j, hj, hset⟩ := hembeds.exists_set hi hview
      exact ⟨_, .single (a := .resume j input') hp'
        (step_resume_eq_some.mpr ⟨_, _, _, hj, hact, rfl⟩), rfl, hset k₁ k₁' hview₁⟩
    · exact ⟨_, .single (a := .invoke request') trivial
        (step_invoke_eq_some.mpr ⟨_, _, hstart, rfl⟩), rfl, hembeds.restart hi hview₁⟩
    · exact ⟨_, .refl _, hw.symm, hembeds.set_of_view_eq hi hview⟩

/-- **Every run contains a run of the inner system.** -/
theorem Embedding.reachable (h : Embedding start act p start' act' p' K f view)
    (hK : ∀ u', Reachable (Interleave.step start' act') (Action.Inputs p') s' u' → K u'.shared)
    (hs : Embedded f view s s')
    (hr : Reachable (Interleave.step start act) (Action.Inputs p) s t) :
    ∃ t', Reachable (Interleave.step start' act') (Action.Inputs p') s' t' ∧
      Embedded f view t t' := by
  refine hr.invariant (I := fun u => ∃ u', Reachable (Interleave.step start' act')
    (Action.Inputs p') s' u' ∧ Embedded f view u u') ⟨s', .refl s', hs⟩ ?_
  rintro u a v ⟨u', hu', hembedded⟩ ha hstep
  obtain ⟨v', hv', hembedded'⟩ := h.step (hK u' hu') hembedded ha hstep
  exact ⟨v', hu'.trans hv', hembedded'⟩

end Rule

end Interleave
