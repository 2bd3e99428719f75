import Mathlib
import BeliefLogic.Symbols

/-!
# Growing symbol tables

A table only grows at its end, so a symbol keeps its number.
-/

namespace BeliefLogic.Symbols

open List

variable {t : Symbols} {n : ℕ} {r s : String}

theorem toList_getElem? {i : ℕ} : t.toList[i]? = some s ↔ t.id? s = some (i + 1) := by
  rw [id?_eq_some_iff, toList, Array.getElem?_toList]

theorem nodup_toList (t : Symbols) : t.toList.Nodup := by
  rw [nodup_iff_injective_get]
  intro i j hij
  have hget (k : Fin t.toList.length) : t.id? (t.toList.get k) = some (k.val + 1) :=
    toList_getElem?.1 (getElem?_eq_getElem k.isLt)
  have hi := hget i
  rw [hij, hget j] at hi
  exact Fin.ext (Nat.succ.inj (Option.some.inj hi)).symm

theorem mem_toList : s ∈ t.toList ↔ ∃ n, t.id? s = some n := by
  rw [mem_iff_getElem?]
  constructor
  · rintro ⟨i, hi⟩
    exact ⟨i + 1, toList_getElem?.1 hi⟩
  · rintro ⟨n, hn⟩
    obtain ⟨i, -, rfl⟩ := Option.map_eq_some_iff.1 hn
    exact ⟨i, toList_getElem?.2 hn⟩

theorem id?_eq_none : t.id? s = none ↔ s ∉ t.toList := by
  rw [mem_toList, ← Option.isSome_iff_exists, Option.not_isSome_iff_eq_none]

theorem id?_congr {t' : Symbols} (h : t.toList = t'.toList) (s : String) : t.id? s = t'.id? s := by
  have hnames : t.names = t'.names := Array.toList_inj.1 h
  refine congrArg _ (Option.ext fun i => ?_)
  rw [t.index_iff, t'.index_iff, hnames]

theorem id?_inj (hr : t.id? r = some n) (hs : t.id? s = some n) : r = s := by
  obtain ⟨i, hi, rfl⟩ := Option.map_eq_some_iff.1 hr
  have hri := (t.index_iff r i).1 hi
  rw [(t.id?_eq_some_iff s i).1 hs] at hri
  exact (Option.some.inj hri).symm

theorem id?_bounds (h : t.id? s = some n) : 0 < n ∧ n ≤ t.size := by
  obtain ⟨i, hi, rfl⟩ := Option.map_eq_some_iff.1 h
  obtain ⟨hlt, -⟩ := Array.getElem?_eq_some_iff.1 ((t.index_iff s i).1 hi)
  exact ⟨Nat.succ_pos i, hlt⟩

theorem name_of_id? (h : t.id? s = some n) : t.name n = .ok (some s) := by
  rw [name, position?_natCast (Nat.lt_succ_of_le (id?_bounds h).2)]
  obtain ⟨i, hi, rfl⟩ := Option.map_eq_some_iff.1 h
  exact congrArg _ ((t.index_iff s i).1 hi)

theorem toList_insert (t : Symbols) (s : String) :
    (t.insert s).toList = if s ∈ t.toList then t.toList else t.toList ++ [s] := by
  by_cases hs : s ∈ t.toList
  · obtain ⟨n, hn⟩ := mem_toList.1 hs
    obtain ⟨i, hi, -⟩ := Option.map_eq_some_iff.1 hn
    rw [if_pos hs, insert, dif_neg (by simp [hi])]
  · have hnone : t.index[s]? = none := by
      simpa [id?] using id?_eq_none.2 hs
    rw [if_neg hs, insert, dif_pos hnone]
    simp [toList]

theorem intern_snd (t : Symbols) (s : String) : (t.intern s).2 = t.insert s := by
  cases h : t.id? s with
  | none => simp [intern, h]
  | some n =>
    obtain ⟨i, hi, -⟩ := Option.map_eq_some_iff.1 h
    rw [insert, dif_neg (by simp [hi])]
    simp [intern, h]

theorem intern_of_id? (h : t.id? s = some n) : t.intern s = (n, t) := by
  simp [intern, h]

theorem id?_of_has (h : t.has s) : t.id? s = some (t.intern s).1 := by
  obtain ⟨n, hn⟩ := Option.isSome_iff_exists.1 h
  rw [intern_of_id? hn, hn]

/-- Known symbols and numbers up to the size determine each other. -/
theorem intern_bijOn (t : Symbols) :
    Set.BijOn (fun s => (t.intern s).1) {s | t.has s} (Set.Icc 1 t.size) := by
  refine ⟨fun s hs => id?_bounds (id?_of_has hs), fun r hr s hs heq => ?_, fun n hn => ?_⟩
  · exact id?_inj (id?_of_has hr) ((id?_of_has hs).trans (congrArg some heq.symm))
  · obtain ⟨i, rfl⟩ := Nat.exists_eq_add_of_le' hn.1
    have hlt : i < t.names.size := hn.2
    have hi := (t.id?_eq_some_iff _ i).2 (Array.getElem?_eq_getElem hlt)
    exact ⟨_, Option.isSome_of_eq_some hi, congrArg Prod.fst (intern_of_id? hi)⟩

theorem id?_insert_of_some (h : t.id? r = some n) (s : String) : (t.insert s).id? r = some n := by
  obtain ⟨i, -, rfl⟩ := Option.map_eq_some_iff.1 h
  rw [← toList_getElem?] at h ⊢
  rw [toList_insert]
  split
  · exact h
  · rw [getElem?_append_left (List.getElem?_eq_some_iff.1 h).1]
    exact h

/-- An interned name has the number that it was given. -/
theorem id?_intern (t : Symbols) (s : String) : (t.insert s).id? s = some (t.intern s).1 := by
  cases h : t.id? s with
  | some n =>
    rw [id?_insert_of_some h s]
    simp [intern, h]
  | none =>
    have hs := id?_eq_none.1 h
    have hend : (t.insert s).toList[t.size]? = some s := by
      rw [toList_insert, if_neg hs]
      simp [toList, size]
    rw [toList_getElem?.1 hend]
    simp [intern, h]

theorem intern_le (t : Symbols) (s : String) : (t.intern s).1 ≤ (t.insert s).size :=
  (id?_bounds (id?_intern t s)).2

def insertAll (t : Symbols) (names : List String) : Symbols := names.foldl insert t

theorem insertAll_append (t : Symbols) (names more : List String) :
    t.insertAll (names ++ more) = (t.insertAll names).insertAll more := foldl_append

theorem id?_insertAll_of_some (h : t.id? r = some n) (names : List String) :
    (t.insertAll names).id? r = some n := by
  induction names generalizing t with
  | nil => exact h
  | cons s names ih => exact ih (id?_insert_of_some h s)

theorem eraseDups_of_nodup {names : List String} (h : names.Nodup) : names.eraseDups = names := by
  induction names with
  | nil => rfl
  | cons s names ih =>
    obtain ⟨hs, hnames⟩ := nodup_cons.1 h
    have hfilter : names.filter (fun r => !r == s) = names := by
      refine filter_eq_self.2 fun r hr => ?_
      have hne : r ≠ s := fun heq => hs (heq ▸ hr)
      simp [hne]
    rw [eraseDups_cons, hfilter, ih hnames]

theorem eraseDups_concat (names : List String) (s : String) :
    (names ++ [s]).eraseDups =
      if s ∈ names then names.eraseDups else names.eraseDups ++ [s] := by
  rw [eraseDups_append]
  by_cases hs : s ∈ names
  · simp [List.removeAll, hs]
  · simp [List.removeAll, hs, eraseDups_cons]

/-- New names are listed after the known ones, by first occurrence. -/
theorem toList_insertAll (t : Symbols) (names : List String) :
    (t.insertAll names).toList = (t.toList ++ names).eraseDups := by
  induction names using List.reverseRecOn with
  | nil =>
    rw [append_nil]
    exact (eraseDups_of_nodup t.nodup_toList).symm
  | append_singleton names s ih =>
    rw [insertAll_append, ← append_assoc, eraseDups_concat, ← ih]
    refine (toList_insert _ s).trans ?_
    have hmem : s ∈ (t.insertAll names).toList ↔ s ∈ t.toList ++ names := by
      rw [ih, mem_eraseDups]
    simp [hmem]

theorem toList_entities : entities.toList = [null, unknown] := by
  refine (toList_insertAll empty [null, unknown]).trans ?_
  decide

theorem size_insertAll (names : List String) :
    (entities.insertAll names).size = (null :: unknown :: names).eraseDups.length := by
  have hlength := congrArg List.length (toList_insertAll entities names)
  rwa [toList_entities, toList, Array.length_toList] at hlength

/-- A table is to take a name in, or to tell its number. -/
inductive Request where
  | insert (s : String)
  | intern (s : String)
  deriving DecidableEq, Repr

def Request.symbol : Request → String
  | insert s | intern s => s

def after (t : Symbols) : List Request → Symbols
  | [] => t
  | .insert s :: rest => (t.insert s).after rest
  | .intern s :: rest => (t.intern s).2.after rest

/-- Asking for a number takes the name in too. -/
theorem after_eq_insertAll (t : Symbols) (rs : List Request) :
    t.after rs = t.insertAll (rs.map Request.symbol) := by
  induction rs generalizing t with
  | nil => rfl
  | cons r rest ih =>
    cases r with
    | insert s => exact ih _
    | intern s =>
      rw [after, intern_snd]
      exact ih _

theorem intern_after (h : t.id? s = some n) (rs : List Request) :
    (t.after rs).intern s = (n, t.after rs) :=
  intern_of_id? (after_eq_insertAll t rs ▸ id?_insertAll_of_some h _)

/-- Whatever is asked of a new table of entities, `intern` is a bijection from its symbols to 1, …,
N with inverse `name`, in listed order, and no later request changes a number. -/
theorem after_numbered (rs later : List Request) :
    let t := entities.after rs
    Set.BijOn (fun s => (t.intern s).1) {s | t.has s} (Set.Icc 1 t.size) ∧
      (∀ s, t.has s → t.name (t.intern s).1 = .ok (some s)) ∧
      t.intern null = (1, t) ∧ t.intern unknown = (2, t) ∧
      (∀ i s, t.toList[i]? = some s ↔ t.has s ∧ (t.intern s).1 = i + 1) ∧
      t.toList = ([null, unknown] ++ rs.map Request.symbol).eraseDups ∧
      ∀ s, t.has s → (t.after later).intern s = ((t.intern s).1, t.after later) := by
  intro t
  have hfirst (i : ℕ) (s : String) (h : [null, unknown][i]? = some s) :
      t.intern s = (i + 1, t) :=
    intern_after (toList_getElem?.1 (toList_entities ▸ h)) rs
  refine ⟨t.intern_bijOn, fun s hs => name_of_id? (id?_of_has hs), hfirst 0 _ rfl, hfirst 1 _ rfl,
    fun i s => ?_, ?_, fun s hs => intern_after (id?_of_has hs) later⟩
  · rw [toList_getElem?]
    constructor
    · exact fun h => ⟨Option.isSome_of_eq_some h, congrArg Prod.fst (intern_of_id? h)⟩
    · rintro ⟨hs, hn⟩
      rw [id?_of_has hs, hn]
  · rw [← toList_entities, ← toList_insertAll, ← after_eq_insertAll]

/-- The first name asked for has the number 3, also when others were added since. -/
theorem after_numbered_third :
    let t := entities.after [.intern "a", .insert "b"]
    t.has "a" ∧ t.name 3 = .ok (some "a") := by
  intro t
  obtain ⟨-, hname, -, -, hnumber, hlist, -⟩ := after_numbered [.intern "a", .insert "b"] []
  obtain ⟨ha, hthree⟩ := (hnumber 2 "a").1 (hlist ▸ by decide)
  exact ⟨ha, by simpa [hthree] using hname "a" ha⟩

end BeliefLogic.Symbols
