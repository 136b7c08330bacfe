import Mathlib.Data.List.AList

/-!
# Unordered maps

`std::unordered_map` with at most one value for a key. The order of the entries stands for the order in which the
container is iterated over.
-/

namespace Sddr.Lib

abbrev UMap (K V : Type) := AList fun _ : K => V

namespace UMap

variable {K V : Type} [DecidableEq K]

/-- `insert(make_pair(key, value))` keeps an entry that is there. -/
def insertNew (m : UMap K V) (key : K) (value : V) : UMap K V := if key ∈ m then m else AList.insert key value m

/-- Loop over the entries that erases those for which `p` holds, and their keys and values. -/
def eraseWhere (p : V → Bool) (m : UMap K V) : List (Sigma fun _ : K => V) → List (K × V) × UMap K V
  | [] => ([], m)
  | entry :: entries =>
      if p entry.2 then
        let rest := eraseWhere p (m.erase entry.1) entries
        ((entry.1, entry.2) :: rest.1, rest.2)
      else eraseWhere p m entries

/-! ## Lookups -/

theorem lookup_insertNew (m : UMap K V) (key key' : K) (value : V) :
    (insertNew m key value).lookup key'
      = if key' = key ∧ m.lookup key = none then some value else m.lookup key' := by
  unfold insertNew
  by_cases hmem : key ∈ m
  · have hsome : m.lookup key ≠ none := fun h => AList.lookup_eq_none.mp h hmem
    simp [hmem, hsome]
  · have hnone := AList.lookup_eq_none.mpr hmem
    rw [if_neg hmem]
    by_cases hkey : key' = key
    · subst hkey
      simp [hnone]
    · simp [hkey, AList.lookup_insert_ne hkey]

theorem lookup_erase (m : UMap K V) (key key' : K) :
    (m.erase key).lookup key' = if key' = key then none else m.lookup key' := by
  by_cases hkey : key' = key
  · subst hkey
    simp
  · rw [AList.lookup_erase_ne hkey, if_neg hkey]

/-! ## Erasing in a loop -/

variable {p : V → Bool}

theorem eraseWhere_from (entries : List (Sigma fun _ : K => V)) (hnodup : entries.NodupKeys) (m : UMap K V) :
    ((eraseWhere p m entries).1.map Prod.fst).Nodup ∧
      (∀ k v, (k, v) ∈ (eraseWhere p m entries).1 ↔ ⟨k, v⟩ ∈ entries ∧ p v = true) ∧
      (∀ k, k ∈ (eraseWhere p m entries).1.map Prod.fst → (eraseWhere p m entries).2.lookup k = none) ∧
      ∀ k, k ∉ (eraseWhere p m entries).1.map Prod.fst → (eraseWhere p m entries).2.lookup k = m.lookup k := by
  induction entries generalizing m with
  | nil => simp [eraseWhere]
  | cons entry entries ih =>
      obtain ⟨key, value⟩ := entry
      obtain ⟨hnotin, hrest⟩ := List.nodupKeys_cons.mp hnodup
      unfold eraseWhere
      cases hp : p value with
      | false =>
          rw [if_neg Bool.false_ne_true]
          obtain ⟨hkeys, hmem, hgone, hkept⟩ := ih hrest m
          refine ⟨hkeys, fun k v => (hmem k v).trans ⟨fun h => ⟨List.mem_cons_of_mem _ h.1, h.2⟩, ?_⟩, hgone, hkept⟩
          rintro ⟨hin, hpv⟩
          rcases List.mem_cons.mp hin with heq | hin
          · cases heq
            exact absurd (hp.symm.trans hpv) Bool.false_ne_true
          · exact ⟨hin, hpv⟩
      | true =>
          rw [if_pos rfl]
          obtain ⟨hkeys, hmem, hgone, hkept⟩ := ih hrest (m.erase key)
          have hfresh : key ∉ (eraseWhere p (m.erase key) entries).1.map Prod.fst := by
            intro hin
            obtain ⟨⟨k, v⟩, hpair, rfl⟩ := List.mem_map.mp hin
            exact hnotin (List.mem_keys.mpr ⟨v, ((hmem k v).mp hpair).1⟩)
          refine ⟨List.nodup_cons.mpr ⟨hfresh, hkeys⟩, fun k v => ?_, fun k hk => ?_, fun k hk => ?_⟩
          · rw [List.mem_cons, hmem]
            constructor
            · rintro (heq | ⟨hin, hpv⟩)
              · cases heq
                exact ⟨List.mem_cons_self, hp⟩
              · exact ⟨List.mem_cons_of_mem _ hin, hpv⟩
            · rintro ⟨hin, hpv⟩
              rcases List.mem_cons.mp hin with heq | hin
              · cases heq
                exact Or.inl rfl
              · exact Or.inr ⟨hin, hpv⟩
          · rcases List.mem_cons.mp hk with rfl | hk
            · rw [hkept _ hfresh, lookup_erase, if_pos rfl]
            · exact hgone k hk
          · rw [List.map_cons, List.mem_cons, not_or] at hk
            rw [hkept k hk.2, lookup_erase, if_neg hk.1]

variable (p) in
/-- The entries for which `p` holds are erased and listed once each. -/
theorem eraseWhere_spec (m : UMap K V) :
    let erased := eraseWhere p m m.entries
    (erased.1.map Prod.fst).Nodup ∧ (∀ k v, (k, v) ∈ erased.1 ↔ m.lookup k = some v ∧ p v = true) ∧
      ∀ k, erased.2.lookup k = (m.lookup k).filter fun v => !p v := by
  obtain ⟨hkeys, hmem, hgone, hkept⟩ := eraseWhere_from (p := p) m.entries m.nodupKeys m
  have hentry : ∀ k v, (k, v) ∈ (eraseWhere p m m.entries).1 ↔ m.lookup k = some v ∧ p v = true :=
    fun k v => (hmem k v).trans (and_congr_left' AList.mem_lookup_iff.symm)
  refine ⟨hkeys, hentry, fun k => ?_⟩
  cases hlookup : m.lookup k with
  | none =>
      refine (hkept k fun hin => ?_).trans hlookup
      obtain ⟨⟨k, v⟩, hpair, rfl⟩ := List.mem_map.mp hin
      rw [((hentry k v).mp hpair).1] at hlookup
      cases hlookup
  | some v =>
      cases hp : p v with
      | true =>
          rw [hgone k (List.mem_map.mpr ⟨(k, v), (hentry k v).mpr ⟨hlookup, hp⟩, rfl⟩)]
          simp [hp, Option.filter]
      | false =>
          refine (hkept k fun hin => ?_).trans (by simp [hlookup, hp, Option.filter])
          obtain ⟨⟨k, v'⟩, hpair, rfl⟩ := List.mem_map.mp hin
          obtain ⟨hthere, hpv⟩ := (hentry k v').mp hpair
          rw [hlookup] at hthere
          cases hthere
          rw [hp] at hpv
          cases hpv

end UMap

end Sddr.Lib
