import BeliefLogic.Proofs.Dictionary
import BeliefLogic.Proofs.Matrix.Combined
import BeliefLogic.Proofs.Outcome
import BeliefLogic.Proofs.Symbols

/-!
# Databases without types

A database without types is regular if every matrix has the shape that its table calls for. The
weight of a fact is then an entry.
-/

namespace BeliefLogic

open Outcome List

variable {symbols : Symbols}

namespace Database

variable {α : Type} {mode : Mode} {symbol : String} {transpose : Bool} {x : Operand α}
  {db : Database α} {n : ℕ}

/-- A database without types whose matrices have the shape of a length. -/
structure Regular (db : Database α) (n : ℕ) : Prop where
  /-- There is one table, and the number 0 is not used. -/
  untyped : ∃ symbols, db.schema = .untyped symbols ∧ symbols.size + 1 = n
  /-- A relation of two arguments is a square. -/
  binary : ∀ {f x}, db.relations.get? ⟨f, 2⟩ = some x → ∃ m : Matrix α, x = .matrix m ∧ m.Shaped n n
  unary : ∀ {f x}, db.relations.get? ⟨f, 1⟩ = some x → ∃ m : Matrix α, x = .matrix m ∧ m.Shaped 1 n

/-- A database is regular if every matrix that it keeps has its shape. -/
theorem regular_of_entries {n : ℕ} (hs : db.schema = .untyped symbols)
    (hn : symbols.size + 1 = n) (h : ∀ e ∈ db.relations.entries, ∃ m : Matrix α, e.2 = .matrix m ∧
      (e.1.arity = 2 → m.Shaped n n) ∧ (e.1.arity = 1 → m.Shaped 1 n)) : db.Regular n := by
  refine ⟨⟨symbols, hs, hn⟩, fun hx => ?_, fun hx => ?_⟩
  · obtain ⟨m, hm, h2, -⟩ := h _ (Dictionary.mem_of_lookup hx)
    exact ⟨m, hm, h2 rfl⟩
  · obtain ⟨m, hm, -, h1⟩ := h _ (Dictionary.mem_of_lookup hx)
    exact ⟨m, hm, h1 rfl⟩

theorem dim_untyped (h : db.schema = .untyped symbols) (type : Option String) :
    db.dim type = .ok (symbols.size + 1) := by
  cases type <;> simp [dim, resolve, h, Schema.defaultType, Schema.count, Schema.table]

theorem zeros_untyped (h : db.schema = .untyped symbols) (height : ℕ)
    (type : Option String) :
    db.zeros height type = .ok (.empty height (symbols.size + 1)) := by
  simp [zeros, dim_untyped h]

theorem Regular.dim_eq {n : ℕ} (h : db.Regular n) (type : Option String) :
    db.dim type = .ok n := by
  obtain ⟨symbols, hs, hn⟩ := h.untyped
  rw [dim_untyped hs, hn]

/-- The number of a symbol in the one table of a database without types. -/
def idOf? (db : Database α) (symbol : String) : Option ℕ :=
  match db.schema with
  | .untyped symbols => symbols.id? symbol
  | .typed _ => none

theorem Regular.idOf?_lt (h : db.Regular n) {k : ℕ} (hk : db.idOf? symbol = some k) : k < n := by
  obtain ⟨symbols, hs, hn⟩ := h.untyped
  rw [idOf?, hs] at hk
  exact hn ▸ Nat.lt_succ_of_le (Symbols.id?_bounds hk).2

theorem Regular.zeros_eq (h : db.Regular n) (height : ℕ) (type : Option String) :
    db.zeros height type = .ok (Matrix.empty height n) := by
  simp [zeros, h.dim_eq]

/-- The type of an entity matters only for the refusal of an unknown one. -/
theorem oneHot_untyped [Scalar α] (h : db.schema = .untyped symbols)
    (symbol : String) (type type' : Option String) :
    db.oneHot symbol type' = db.oneHot symbol type ∨ ∃ t t',
      db.oneHot symbol type = .error (.refused (.unknownConstant symbol t)) ∧
        db.oneHot symbol type' = .error (.refused (.unknownConstant symbol t')) := by
  have hresolve (type : Option String) : ∃ t, db.resolve type = .ok t := by
    cases type with
    | none => exact ⟨thing, by simp [resolve, h, Schema.defaultType]⟩
    | some t => exact ⟨t, rfl⟩
  obtain ⟨t, ht⟩ := hresolve type
  obtain ⟨t', ht'⟩ := hresolve type'
  simp only [oneHot, ht, ht', h, Schema.table, dim_untyped h, bind, Except.bind]
  cases hid : symbols.id? symbol with
  | some n => exact .inl rfl
  | none => exact .inr ⟨t, t', rfl, rfl⟩

/-- Whether there is a matrix for a relation. -/
def Stores (db : Database α) (p : Predicate) : Prop := (db.relations.get? p).isSome = true

/-- Whether a mode computes the second argument from the first. -/
def isForward (mode : Mode) : Bool := mode.isInput 0 && mode.isOutput 1

theorem isTransposed_eq (h : mode.arity = 2) (transpose : Bool) :
    isTransposed mode transpose = .ok (isForward mode == transpose) := by
  obtain ⟨a, b, hargs⟩ := List.length_eq_two.1 (show mode.args.length = 2 from h)
  simp [isTransposed, hargs, isForward]

theorem operand_ok_iff : db.operand mode transpose = .ok x ↔ mode.arity = 2 ∧
    ∃ y, db.relations.get? ⟨mode.functor, 2⟩ = some y ∧
      (if isForward mode = transpose then y.transpose else .ok y) = .ok x := by
  by_cases harity : mode.arity = 2
  · have hp : mode.predicate = ⟨mode.functor, 2⟩ := by simp [Mode.predicate, harity]
    cases hget : db.relations.get? ⟨mode.functor, 2⟩ <;>
      simp [operand, harity, hp, hget, isTransposed_eq harity]
  · simp [operand, harity]

theorem rowOperand_ok_iff : db.rowOperand mode = .ok x ↔
    mode.arity = 1 ∧ db.relations.get? ⟨mode.functor, 1⟩ = some x := by
  by_cases harity : mode.arity = 1
  · have hp : mode.predicate = ⟨mode.functor, 1⟩ := by simp [Mode.predicate, harity]
    cases hget : db.relations.get? ⟨mode.functor, 1⟩ <;> simp [rowOperand, harity, hp, hget]
  · simp [rowOperand, harity]

variable [ExactScalar α]

def weight (db : Database α) (functor : String) (i j : ℕ) : α :=
  match db.relation? ⟨functor, 2⟩ with
  | some m => m.entry i j
  | none => 0

def rowWeight (db : Database α) (functor : String) (j : ℕ) : α :=
  match db.relation? ⟨functor, 1⟩ with
  | some m => m.entry 0 j
  | none => 0

/-- The weight with which a mode carries one number to another, or back. -/
def carried (db : Database α) (mode : Mode) (transpose : Bool) (i k : ℕ) : α :=
  if isForward mode = transpose then db.weight mode.functor k i else db.weight mode.functor i k

namespace Regular

/-- The matrix of a mode has the weights that the mode carries. -/
theorem operand_ok (h : db.Regular n) (hx : db.operand mode transpose = .ok x) :
    (mode.arity = 2 ∧ db.Stores mode.predicate) ∧ ∃ m, x = .matrix m ∧ m.Shaped n n ∧
      ∀ i k, m.entry i k = db.carried mode transpose i k := by
  obtain ⟨harity, y, hy, hx⟩ := operand_ok_iff.1 hx
  refine ⟨⟨harity, by simp [Stores, Mode.predicate, harity, hy]⟩, ?_⟩
  obtain ⟨m, rfl, hm⟩ := h.binary hy
  have hw (i j : ℕ) : db.weight mode.functor i j = m.entry i j := by simp [weight, relation?, hy]
  simp only [carried, hw]
  split at hx <;> cases hx
  next hf => exact ⟨m.transpose, rfl, by simpa [hf] using hm.transpose⟩
  next hf => exact ⟨m, rfl, by simpa [hf] using hm⟩

theorem carry_ok (h : db.Regular n) (hx : db.operand mode transpose = .ok x) {rows : Matrix α}
    {height : ℕ} (hr : rows.Shaped height n) :
    ∃ m, x.carry rows = .ok m ∧ m.Shaped height n ∧
      ∀ r k, m.entry r k =
        ∑ i ∈ Finset.range n, rows.entry r i * db.carried mode transpose i k := by
  obtain ⟨-, m, rfl, hm, he⟩ := h.operand_ok hx
  obtain ⟨p, hp, hs, hpe⟩ := hr.mul hm
  refine ⟨p, hp, hs, fun r k => ?_⟩
  simp [hpe, he]

theorem rowOperand_ok (h : db.Regular n) (hx : db.rowOperand mode = .ok x) :
    (mode.arity = 1 ∧ db.Stores mode.predicate) ∧ ∃ m, x = .matrix m ∧ m.Shaped 1 n ∧
      ∀ k, m.entry 0 k = db.rowWeight mode.functor k := by
  obtain ⟨harity, hy⟩ := rowOperand_ok_iff.1 hx
  refine ⟨⟨harity, by simp [Stores, Mode.predicate, harity, hy]⟩, ?_⟩
  obtain ⟨m, rfl, hm⟩ := h.unary hy
  exact ⟨m, rfl, hm, fun k => by simp [rowWeight, relation?, hy]⟩

theorem ones_spec (h : db.Regular n) (type : Option String) :
    ∃ m, db.ones type = .ok m ∧ m.Shaped 1 n ∧ ∀ k, k < n → m.entry 0 k = 1 := by
  have key (js : List ℕ) (hjs : js.Nodup) (k : ℕ) (hk : k ∈ js) :
      Matrix.rowEntry (js.map fun j => (j, (1 : α))) k = 1 := by
    have := Matrix.rowEntry_of_mem (r := js.map fun j => (j, (1 : α))) (by simpa [Function.comp_def] using hjs)
      (e := (k, 1)) (by simpa using hk)
    exact this
  refine ⟨⟨n, #[(List.range n).map fun j => (j, 1)]⟩, ?_, Matrix.shaped_singleRow ?_, fun k hk => ?_⟩
  · simp [ones, h.dim_eq]
  · intro e he
    obtain ⟨j, hj, rfl⟩ := mem_map.1 he
    exact mem_range.1 hj
  · rw [Matrix.entry_eq]
    exact key _ nodup_range k (mem_range.2 hk)

/-- The preimage of a mode adds up what the mode carries back. -/
theorem preimage_ok (h : db.Regular n) {m : Matrix α} (hm : db.preimage mode = .ok m) :
    (mode.arity = 2 ∧ db.Stores mode.predicate) ∧ m.Shaped 1 n ∧
      ∀ k, m.entry 0 k = ∑ i ∈ Finset.range n, db.carried mode true i k := by
  simp only [preimage, preimageOnes, then_ok] at hm
  obtain ⟨ones, ⟨type, -, hones⟩, x, hx, hm⟩ := hm
  obtain ⟨o, ho, hos, hoe⟩ := h.ones_spec type
  obtain rfl := ok_unique ho hones
  obtain ⟨p, hp, hs, he⟩ := h.carry_ok hx hos
  obtain rfl := ok_unique hp hm
  refine ⟨(h.operand_ok hx).1, hs, fun k => ?_⟩
  rw [he]
  refine Finset.sum_congr rfl fun i hi => ?_
  rw [hoe i (Finset.mem_range.1 hi), one_mul]

/-- The row vector of an entity has a one at its number. -/
theorem oneHot_spec (h : db.Regular n) {a : ℕ} (ha : db.idOf? symbol = some a)
    (type : Option String) :
    ∃ m, db.oneHot symbol type = .ok m ∧ m.Shaped 1 n ∧
      ∀ k, m.entry 0 k = if k = a then 1 else 0 := by
  obtain ⟨symbols, hs, -⟩ := h.untyped
  obtain ⟨p, hp, hsp, hpe⟩ := Matrix.unit_spec (α := α) (h.idOf?_lt ha)
  refine ⟨p, ?_, hsp, hpe⟩
  have hid : symbols.id? symbol = some a := by simpa [idOf?, hs] using ha
  cases type <;>
    simp [oneHot, resolve, hs, Schema.defaultType, Schema.table, hid, h.dim_eq, hp]

/-- Only symbols in the table have row vectors. -/
theorem oneHot_ok (h : db.Regular n) {type : Option String} {m : Matrix α}
    (hm : db.oneHot symbol type = .ok m) :
    ∃ a, db.idOf? symbol = some a ∧ m.Shaped 1 n ∧ ∀ k, m.entry 0 k = if k = a then 1 else 0 := by
  obtain ⟨symbols, hs, -⟩ := h.untyped
  cases ha : db.idOf? symbol with
  | none =>
    have hid : symbols.id? symbol = none := by simpa [idOf?, hs] using ha
    simp only [oneHot, hs, Schema.table] at hm
    simp [hid] at hm
  | some a =>
    obtain ⟨p, hp, hsp, hpe⟩ := h.oneHot_spec ha type
    obtain rfl := ok_unique hp hm
    exact ⟨a, rfl, hsp, hpe⟩

end Regular

end Database

end BeliefLogic
