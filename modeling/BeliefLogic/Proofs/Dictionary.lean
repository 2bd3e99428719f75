import Mathlib
import BeliefLogic.Dictionary

/-!
# Entries of dictionaries

A dictionary lists no key twice, however it was filled. Its entries are then what its keys are looked
up to.
-/

namespace BeliefLogic.Dictionary

open List

variable {κ ν : Type} [BEq κ] [LawfulBEq κ] {key : κ} {es : List (κ × ν)} {v : ν}

/-- Putting a value under a known key replaces it in its place. -/
theorem putEntry_append {w : ν} {as bs : List (κ × ν)} (h : key ∉ as.map (·.1)) :
    putEntry key v (as ++ (key, w) :: bs) = as ++ (key, v) :: bs := by
  induction as with
  | nil => simp [putEntry]
  | cons a as ih =>
    rw [map_cons, mem_cons, not_or] at h
    have hne : (a.1 == key) = false := beq_false_of_ne (Ne.symm h.1)
    rw [cons_append, putEntry, hne, ih h.2]
    rfl

omit [LawfulBEq κ] in
/-- The value of an entry, if no key is listed twice. -/
theorem lookup_of_mem [EquivBEq κ] (h : es.Pairwise fun a b => (a.1 == b.1) = false) {e : κ × ν}
    (he : e ∈ es) : lookup e.1 es = some e.2 := by
  induction es with
  | nil => cases he
  | cons a es ih =>
    obtain ⟨ha, hes⟩ := pairwise_cons.1 h
    rcases mem_cons.1 he with rfl | he
    · simp [lookup]
    · rw [lookup, ha e he]
      exact ih hes he

theorem pairwise_of_nodup (h : (es.map (·.1)).Nodup) :
    es.Pairwise fun a b => (a.1 == b.1) = false :=
  (pairwise_map.1 h).imp beq_false_of_ne

theorem lookup_of_notMem (h : key ∉ es.map (·.1)) : lookup key es = none := by
  induction es with
  | nil => rfl
  | cons a es ih =>
    rw [map_cons, mem_cons, not_or] at h
    have hne : (a.1 == key) = false := beq_false_of_ne (Ne.symm h.1)
    rw [lookup, hne]
    exact ih h.2

/-- What a key is looked up to is an entry. -/
theorem mem_of_lookup (h : lookup key es = some v) : (key, v) ∈ es := by
  induction es with
  | nil => cases h
  | cons e es ih =>
    rw [lookup] at h
    split at h
    · next heq =>
      obtain rfl := Option.some.inj h
      exact mem_cons.2 (.inl (Prod.ext (beq_iff_eq.1 heq).symm rfl))
    · exact mem_cons_of_mem _ (ih h)

omit [LawfulBEq κ] in
/-- A value is put in the place of its key, or at the end. -/
theorem putEntry_cases (key : κ) (v : ν) (es : List (κ × ν)) :
    (∃ as k w bs, es = as ++ (k, w) :: bs ∧ (k == key) = true ∧
        putEntry key v es = as ++ (k, v) :: bs) ∨
      (∀ e ∈ es, (e.1 == key) = false) ∧ putEntry key v es = es ++ [(key, v)] := by
  induction es with
  | nil => exact .inr ⟨by simp, rfl⟩
  | cons e es ih =>
    rw [putEntry]
    split
    · next he => exact .inl ⟨[], e.1, e.2, es, rfl, he, rfl⟩
    · next he =>
      rcases ih with ⟨as, k, w, bs, hes, hk, hput⟩ | ⟨hes, hput⟩
      · exact .inl ⟨e :: as, k, w, bs, by rw [hes, cons_append], hk, by rw [hput, cons_append]⟩
      · exact .inr ⟨forall_mem_cons.2 ⟨Bool.eq_false_iff.2 he, hes⟩, by rw [hput, cons_append]⟩

section Put

variable {d : Dictionary κ ν} {e : κ × ν}

omit [LawfulBEq κ] in
theorem keys_put_of_mem {k : κ} (hk : k ∈ d.keys) (hkey : (k == key) = true) (v : ν) :
    (d.put key v).keys = d.keys := by
  rw [keys, put, keys]
  rcases putEntry_cases key v d.entries with ⟨as, k', w, bs, hes, -, hput⟩ | ⟨hnew, -⟩
  · rw [hput, hes, map_append, map_append]
    rfl
  · obtain ⟨e, he, rfl⟩ := mem_map.1 hk
    exact absurd hkey (Bool.eq_false_iff.1 (hnew e he))

theorem nodup_keys_put (h : d.keys.Nodup) (key : κ) (v : ν) : (d.put key v).keys.Nodup := by
  by_cases hkey : key ∈ d.keys
  · rwa [keys_put_of_mem hkey BEq.rfl]
  · rcases putEntry_cases key v d.entries with ⟨as, k, w, bs, hes, hk, -⟩ | ⟨-, hput⟩
    · exact absurd (mem_map.2 ⟨(k, w), by simp [hes], beq_iff_eq.1 hk⟩) hkey
    · rw [keys, put, hput, map_append]
      exact nodup_append'.2 ⟨h, nodup_singleton key, disjoint_singleton.2 hkey⟩

theorem mem_entries_put (h : e ∈ (d.put key v).entries) : e ∈ d.entries ∨ e = (key, v) := by
  rw [put] at h
  rcases putEntry_cases key v d.entries with ⟨as, k, w, bs, hes, hk, hput⟩ | ⟨-, hput⟩
  · obtain rfl := beq_iff_eq.1 hk
    rw [hput] at h
    rw [hes]
    grind
  · simpa [hput] using h

theorem mem_keys_put {key' : κ} (h : key' ∈ (d.put key v).keys) : key' ∈ d.keys ∨ key' = key := by
  obtain ⟨e, he, rfl⟩ := mem_map.1 h
  rcases mem_entries_put he with he | rfl
  · exact .inl (mem_map_of_mem he)
  · exact .inr rfl

theorem contains_put (d : Dictionary κ ν) (key key' : κ) (v : ν) :
    (d.put key v).contains key' = (key == key' || d.contains key') := by
  rw [contains, get?_put, contains]
  split <;> simp [*]

theorem put_of_nodup (h : ((d.entries ++ e :: es).map (·.1)).Nodup) :
    e.1 ∉ d.keys ∧ d.put e.1 e.2 = ⟨d.entries ++ [e]⟩ := by
  have hnew : e.1 ∉ d.keys := by
    rw [map_append] at h
    exact fun hmem => (nodup_append'.1 h).2.2 hmem mem_cons_self
  refine ⟨hnew, ?_⟩
  rcases putEntry_cases e.1 e.2 d.entries with ⟨as, k, w, bs, hes, hk, -⟩ | ⟨-, hput⟩
  · exact absurd (mem_map.2 ⟨(k, w), by simp [hes], beq_iff_eq.1 hk⟩) hnew
  · exact congrArg mk hput

end Put

theorem mem_entries_iff {d : Dictionary κ ν} (h : d.keys.Nodup) :
    (key, v) ∈ d.entries ↔ d.get? key = some v :=
  ⟨fun he => lookup_of_mem (pairwise_of_nodup h) he, mem_of_lookup⟩

end BeliefLogic.Dictionary
