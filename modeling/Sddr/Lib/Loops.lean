import Mathlib.Data.List.Find
import Mathlib.Data.List.Induction
import Mathlib.Logic.Function.Basic

/-!
# Loops over the indexes of a list

A loop that reads one element in each round and stores a result for it, in a new list or in a map from results to indexes.
In such a map the last index of a result stays.
-/

namespace Sddr.Lib

variable {α β γ : Type}

theorem map_mapIdx (f : β → γ) (g : Nat → α → β) (l : List α) : (l.mapIdx g).map f = l.mapIdx fun i a => f (g i a) :=
  List.ext_getElem? fun i => by simp [Function.comp_def]

theorem mapM_eq_some {f : α → Option β} {g : α → β} {l : List α} (h : ∀ a ∈ l, f a = some (g a)) :
    l.mapM f = some (l.map g) := by
  induction l with
  | nil => rfl
  | cons a l ih =>
      rw [List.mapM_cons, h a List.mem_cons_self, ih fun b hb => h b (List.mem_cons_of_mem a hb)]
      rfl

theorem mapM_isSome_iff {f : α → Option β} {l : List α} : (l.mapM f).isSome ↔ ∀ a ∈ l, (f a).isSome := by
  induction l with
  | nil => simp
  | cons a l ih =>
      rw [List.mapM_cons, List.forall_mem_cons, ← ih]
      cases hf : f a with
      | none => simp
      | some b => cases hrest : l.mapM f <;> simp

/-- What the results tell of the elements. -/
theorem map_mapM {f : α → Option β} {g : β → γ} {g' : α → γ} {l : List α} {bs : List β} (h : l.mapM f = some bs)
    (hg : ∀ a b, f a = some b → g b = g' a) : bs.map g = l.map g' := by
  induction l generalizing bs with
  | nil =>
      cases h
      rfl
  | cons a l ih =>
      simp only [List.mapM_cons, Option.bind_eq_bind, Option.bind_eq_some_iff] at h
      obtain ⟨b, hb, bs', hbs', h⟩ := h
      cases h
      rw [List.map_cons, List.map_cons, ih hbs', hg a b hb]

/-- Entry `x * n + y` of a table that is filled row by row. -/
theorem getElem?_grid {m n x y : Nat} (f : Nat → Nat → α) (hx : x < m) (hy : y < n) :
    ((List.range m).flatMap fun x => (List.range n).map fun y => f x y)[x * n + y]? = some (f x y) := by
  induction m with
  | zero => exact absurd hx (Nat.not_lt_zero x)
  | succ m ih =>
      have hlength : ((List.range m).flatMap fun x => (List.range n).map fun y => f x y).length = m * n := by
        simp [List.length_flatMap, List.map_const']
      rw [List.range_succ, List.flatMap_append]
      rcases Nat.lt_succ_iff_lt_or_eq.mp hx with hlt | rfl
      · have hbound : (x + 1) * n ≤ m * n := Nat.mul_le_mul_right n hlt
        rw [Nat.succ_mul] at hbound
        rw [List.getElem?_append_left (by omega)]
        exact ih hlt
      · rw [List.getElem?_append_right (by omega), hlength, Nat.add_sub_cancel_left]
        simp [hy]

theorem mapM_range {l : List α} {f : Nat → Option β} {g : Nat → α → β}
    (h : ∀ i a, l[i]? = some a → f i = some (g i a)) : (List.range l.length).mapM f = some (l.mapIdx g) := by
  induction l generalizing f g with
  | nil => rfl
  | cons a l ih =>
      have hfirst : f 0 = some (g 0 a) := h 0 a rfl
      have hrest := ih (f := fun i => f (i + 1)) (g := fun i => g (i + 1)) fun i b hb => h (i + 1) b hb
      have hmap : ∀ js : List Nat, (js.map Nat.succ).mapM f = js.mapM fun i => f (i + 1) := fun js => by
        rw [List.mapM_map]
        rfl
      rw [List.length_cons, List.range_succ_eq_map, List.mapM_cons, hfirst, hmap, hrest, List.mapIdx_cons]
      rfl

/-- What each round keeps. -/
theorem foldlM_keeps {step : γ → α → Option γ} {p : γ → Prop} {l : List α}
    (hstep : ∀ c a c', a ∈ l → step c a = some c' → p c → p c') {c c' : γ} (h : l.foldlM step c = some c') (hc : p c) :
    p c' := by
  induction l generalizing c with
  | nil =>
      cases h
      exact hc
  | cons a l ih =>
      rw [List.foldlM_cons, Option.bind_eq_bind, Option.bind_eq_some_iff] at h
      obtain ⟨c₁, hfirst, hrest⟩ := h
      exact ih (fun c b c' hb => hstep c b c' (List.mem_cons_of_mem a hb)) hrest
        (hstep c a c₁ List.mem_cons_self hfirst hc)

/-- A loop whose rounds fail or not whatever they begin with, as long as they keep `q`. -/
theorem foldlM_isSome_iff_of_keeps {step : γ → α → Option γ} {q : γ → Prop} {p : α → Prop} {l : List α}
    (hkeeps : ∀ c a c', a ∈ l → step c a = some c' → q c → q c')
    (hstep : ∀ c, q c → ∀ a ∈ l, (step c a).isSome ↔ p a) {c : γ} (hc : q c) :
    (l.foldlM step c).isSome ↔ ∀ a ∈ l, p a := by
  induction l generalizing c with
  | nil => simp
  | cons a l ih =>
      rw [List.foldlM_cons, List.forall_mem_cons, ← hstep c hc a List.mem_cons_self]
      cases h : step c a with
      | none => simp
      | some c' =>
          simpa using ih (fun c b c' hb => hkeeps c b c' (List.mem_cons_of_mem a hb))
            (fun c hc b hb => hstep c hc b (List.mem_cons_of_mem a hb)) (hkeeps c a c' List.mem_cons_self h hc)

theorem foldlM_isSome_iff {step : γ → α → Option γ} {p : α → Prop} {l : List α}
    (hstep : ∀ c, ∀ a ∈ l, (step c a).isSome ↔ p a) {c : γ} : (l.foldlM step c).isSome ↔ ∀ a ∈ l, p a :=
  foldlM_isSome_iff_of_keeps (q := fun _ => True) (fun _ _ _ _ _ h => h) (fun c _ => hstep c) trivial

section LastIndex

variable [DecidableEq β]

/-- The last index at which `b` stands. -/
def lastIdx? (l : List β) (b : β) : Option Nat := (List.range l.length).reverse.find? fun i => l[i]? = some b

theorem lastIdx?_concat (l : List β) (b b' : β) :
    lastIdx? (l ++ [b']) b = if b = b' then some l.length else lastIdx? l b := by
  have hlast : (l ++ [b'])[l.length]? = some b' := List.getElem?_concat_length
  rw [lastIdx?, List.length_append, List.length_singleton, List.range_succ, List.reverse_append, List.reverse_singleton,
    List.singleton_append, List.find?_cons, hlast]
  by_cases h : b = b'
  · rw [if_pos h, h]
    simp
  · rw [if_neg h, lastIdx?]
    have hne : decide (some b' = some b) = false := decide_eq_false fun heq => h (Option.some.inj heq).symm
    rw [hne]
    refine List.find?_congr fun i hi => ?_
    rw [List.getElem?_append_left (List.mem_range.mp (List.mem_reverse.mp hi))]

theorem lastIdx?_eq_some {l : List β} {b : β} {i : Nat} (h : lastIdx? l b = some i) : l[i]? = some b := by
  simpa using List.find?_some h

theorem lastIdx?_isSome_iff {l : List β} {b : β} : (lastIdx? l b).isSome ↔ b ∈ l := by
  rw [lastIdx?, List.find?_isSome]
  constructor
  · rintro ⟨i, _, hi⟩
    exact List.mem_of_getElem? (of_decide_eq_true hi)
  · intro h
    obtain ⟨i, hi, heq⟩ := List.mem_iff_getElem.mp h
    exact ⟨i, List.mem_reverse.mpr (List.mem_range.mpr hi), by simp [List.getElem?_eq_getElem hi, heq]⟩

/-- Results that tell the same elements apart. -/
theorem lastIdx?_mapIdx [DecidableEq α] {l : List α} {g : Nat → α → β} {a : α} {b : β}
    (h : ∀ i a', l[i]? = some a' → (g i a' = b ↔ a' = a)) : lastIdx? (l.mapIdx g) b = lastIdx? l a := by
  rw [lastIdx?, lastIdx?, List.length_mapIdx]
  refine List.find?_congr fun i hi => ?_
  have hlt := List.mem_range.mp (List.mem_reverse.mp hi)
  have hget := List.getElem?_eq_getElem hlt
  rw [List.getElem?_mapIdx, hget, Option.map_some, decide_eq_decide, Option.some_inj, Option.some_inj]
  exact h i _ hget

/-- The elements at the indexes found are those that are there. -/
theorem mapM_filterMap_lastIdx? (l bs : List β) :
    (bs.filterMap (lastIdx? l)).mapM (l[·]?) = some (bs.filter fun b => (lastIdx? l b).isSome) := by
  induction bs with
  | nil => rfl
  | cons b bs ih =>
      cases h : lastIdx? l b with
      | none => rw [List.filterMap_cons_none h, ih, List.filter_cons_of_neg (by simp [h])]
      | some i =>
          rw [List.filterMap_cons_some h, List.mapM_cons, lastIdx?_eq_some h, ih, List.filter_cons_of_pos (by simp [h])]
          rfl

/-- A loop that puts each index under the result of its round. -/
theorem foldlM_range_update {l : List α} {g : Nat → α → β} {step : (β → Option Nat) → Nat → Option (β → Option Nat)}
    (h : ∀ m i a, l[i]? = some a → step m i = some (Function.update m (g i a) (some i))) (m : β → Option Nat) :
    (List.range l.length).foldlM step m = some fun b => (lastIdx? (l.mapIdx g) b).or (m b) := by
  induction l using List.reverseRecOn with
  | nil => rfl
  | append_singleton l a ih =>
      have hinit := ih fun m i b hb => h m i b (by
        rw [List.getElem?_append_left (List.getElem?_eq_some_iff.mp hb).1]
        exact hb)
      have hlast := h (fun b => (lastIdx? (l.mapIdx g) b).or (m b)) l.length a List.getElem?_concat_length
      rw [List.length_append, List.length_singleton, List.range_succ, List.foldlM_append, hinit]
      simp only [List.foldlM_cons, List.foldlM_nil, Option.bind_eq_bind, Option.bind_some, hlast, Option.pure_def]
      refine congrArg some (funext fun b => ?_)
      rw [List.mapIdx_concat, lastIdx?_concat, List.length_mapIdx]
      by_cases hb : b = g l.length a
      · rw [if_pos hb, hb, Function.update_self, Option.some_or]
      · rw [if_neg hb, Function.update_of_ne hb]

end LastIndex

end Sddr.Lib
