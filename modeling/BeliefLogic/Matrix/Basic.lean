import BeliefLogic.Position
import BeliefLogic.Scalar
import BeliefLogic.Tally

/-!
# Sparse matrices

A matrix keeps for each row the columns and values that are stored, in order of storage. The entry
at a place is the sum of what is stored there. Sums merge sorted rows; if a row is not sorted,
columns come out in the reverse of the order in which they were first met, as in products. Sums and
products drop zeros.
-/

namespace BeliefLogic

open Scalar

/-- The columns and values of a row. -/
abbrev Row (α : Type) := List (Nat × α)

/-- A sparse matrix, row by row. -/
structure Matrix (α : Type) where
  width : Nat
  rows : Array (Row α)
  deriving Repr, Inhabited

namespace Matrix

variable {α : Type}

/-- The number of rows. -/
def height (m : Matrix α) : Nat := m.rows.size

/-- The number of cells in storage. -/
def stored (m : Matrix α) : Nat := tally (m.rows.toList.map List.length)

/-- The row at a position, empty beyond the last. -/
def row (m : Matrix α) (i : Nat) : Row α := m.rows[i]?.getD []

/-- The columns in storage. -/
def columns (m : Matrix α) : List Nat := m.rows.toList.flatMap fun r => r.map (·.1)

/-- The values in storage. -/
def values (m : Matrix α) : List α := m.rows.toList.flatMap fun r => r.map (·.2)

/-- The cells with row, column and value. -/
def entries (m : Matrix α) : List (Nat × Nat × α) :=
  (List.range m.height).flatMap fun i => (m.row i).map fun (j, x) => (i, j, x)

/-- Where each row starts in storage, and where the last one ends. -/
def rowStarts (m : Matrix α) : List Nat :=
  m.rows.toList.foldl (fun starts r => (starts.headD 0 + r.length) :: starts) [0] |>.reverse

/-- A matrix in storage: the cells of all rows one after the other, and where each row starts. -/
structure Storage (α : Type) where
  cells : Array (Nat × α)
  starts : Array Nat

/-- The rows of a matrix in storage. -/
def storage (m : Matrix α) : Storage α := ⟨m.rows.toList.flatten.toArray, m.rowStarts.toArray⟩

namespace Storage

/-- Where a row starts. -/
def start (s : Storage α) (i : Nat) : Nat := s.starts[i]?.getD 0

/-- The cells of a row stand between its start and that of the next one. -/
def row (s : Storage α) (i : Nat) : Array (Nat × α) := s.cells.extract (s.start i) (s.start (i + 1))

/-- All rows, read from storage. -/
def rows (s : Storage α) : Array (Row α) :=
  (Array.range (s.starts.size - 1)).map fun i => (s.row i).toList

/-- Copies rows in a new order, each behind those copied before. -/
def shuffle (s : Storage α) (order : List Nat) : Storage α :=
  order.foldl (fun t i => ⟨t.cells ++ s.row i, t.starts.push (t.cells.size + (s.row i).size)⟩)
    ⟨#[], #[0]⟩

/-- Copies the cells of rows from `lo` up to `hi`, and moves their starts. -/
def select (s : Storage α) (lo hi : Nat) : Storage α :=
  ⟨s.cells.extract (s.start lo) (s.start hi),
    (s.starts.extract lo (hi + 1)).map fun i => i - s.start lo⟩

end Storage

/-- The positions of the cells of a row. -/
def storedPositions (m : Matrix α) (i : Int) : Except Error (List Nat) := do
  let lo ← itemAt m.rowStarts i
  let hi ← itemAt m.rowStarts (i + 1)
  return (List.range (hi - lo)).map (· + lo)

/-- Whether columns increase. -/
def sortedRow : Row α → Bool
  | (j, _) :: (k, x) :: rest => decide (j < k) && sortedRow ((k, x) :: rest)
  | _ => true

/-- Whether columns increase in every row. -/
def isSorted (m : Matrix α) : Bool := m.rows.all sortedRow

/-- A matrix without cells. -/
def empty (height width : Nat) : Matrix α := ⟨width, Array.replicate height []⟩

/-- Maps every row. -/
def mapRows (f : Row α → Row α) (m : Matrix α) : Matrix α := ⟨m.width, m.rows.map f⟩

/-- Maps every value, unless this fails. -/
def mapM (f : α → Except Error α) (m : Matrix α) : Except Error (Matrix α) := do
  let rows ← m.rows.mapM fun r => r.mapM fun (j, x) => return (j, ← f x)
  return ⟨m.width, rows⟩

/-- Maps every value. -/
def map (f : α → α) (m : Matrix α) : Matrix α :=
  m.mapRows fun r => r.map fun (j, x) => (j, f x)

variable [Scalar α]

/-- The sum of what is stored at a place. -/
def entry (m : Matrix α) (i j : Nat) : α :=
  Scalar.sum ((m.row i).filterMap fun (k, x) => if k = j then some x else none)

/-- Values collected by column, and the columns met, last first. -/
structure Scattered (α : Type) where
  cells : Array (Option α)
  met : List Nat

/-- No value yet. -/
def Scattered.none (width : Nat) : Scattered α := ⟨Array.replicate width .none, []⟩

/-- Adds a value in a column. -/
def Scattered.put (s : Scattered α) (j : Nat) (x : α) : Scattered α :=
  match s.cells[j]? with
  | some (some y) => ⟨s.cells.set! j (some (Scalar.plus y x)), s.met⟩
  | some .none => ⟨s.cells.set! j (some x), j :: s.met⟩
  | .none => s

/-- Adds the values of a row. -/
def Scattered.putRow (s : Scattered α) (r : Row α) : Scattered α :=
  r.foldl (fun s (j, x) => s.put j x) s

/-- The value of a column. -/
def Scattered.get (s : Scattered α) (j : Nat) : α := (s.cells[j]?.bind id).getD 0

/-- The columns met with their values, last first. -/
def Scattered.gather (s : Scattered α) : Row α :=
  s.met.map fun j => (j, s.get j)

/-- Adds up neighbours in one column. -/
def mergeColumns (add : α → α → α) : Row α → Row α
  | (j, x) :: (k, y) :: rest =>
    if j = k then mergeColumns add ((j, add x y) :: rest)
    else (j, x) :: mergeColumns add ((k, y) :: rest)
  | r => r
termination_by r => r.length

/-- Sorts a row by column, keeping the order of repeated columns. -/
def sortRow (r : Row α) : Row α :=
  r.mergeSort fun a b => decide (a.1 ≤ b.1)

/-- A sorted row with each column once. -/
def canonicalRow (add : α → α → α) (r : Row α) : Row α :=
  if sortedRow r then r else mergeColumns add (sortRow r)

/-- A matrix from coordinates. Values at one place are added up, zeros stay. -/
def gatherEntries (add : α → α → α) (height width : Nat) (es : List (Nat × Nat × α)) :
    Except Error (Matrix α) :=
  if es.all fun (i, j, _) => i < height && j < width then
    let rows := es.foldl (fun (rows : Array (Row α)) (i, j, x) =>
      rows.modify i ((j, x) :: ·)) (Array.replicate height [])
    .ok ⟨width, rows.map fun r => canonicalRow add r.reverse⟩
  else .error .malformed

/-- A matrix from coordinates within its bounds. -/
def ofEntries (height width : Nat) (es : List (Nat × Nat × α)) : Except Error (Matrix α) :=
  gatherEntries Scalar.plus height width es

/-- A matrix from coordinates with values that are still to be stored. -/
def ofWeights (height width : Nat) (es : List (Nat × Nat × α)) : Except Error (Matrix α) := do
  (← gatherEntries (· + ·) height width es).mapM store

/-- A row with a single one. -/
def unit (width j : Nat) : Except Error (Matrix α) := ofEntries 1 width [(0, j, 1)]

/-- Combines two sorted rows column by column, dropping zeros. -/
def mergeRows (op : α → α → α) : Row α → Row α → Row α
  | [], s => s.filterMap fun (k, y) => keep k (op 0 y)
  | (j, x) :: r, [] => ((j, x) :: r).filterMap fun (k, y) => keep k (op y 0)
  | (j, x) :: r, (k, y) :: s =>
    if j = k then consKept j (op x y) (mergeRows op r s)
    else if j < k then consKept j (op x 0) (mergeRows op r ((k, y) :: s))
    else consKept k (op 0 y) (mergeRows op ((j, x) :: r) s)
termination_by r s => r.length + s.length
where
  keep (j : Nat) (x : α) : Option (Nat × α) := if isZero x then none else some (j, x)
  consKept (j : Nat) (x : α) (r : Row α) : Row α := if isZero x then r else (j, x) :: r

/-- Combines two rows through scattered values, dropping zeros. -/
def scatterRows (width : Nat) (op : α → α → α) (r s : Row α) : Row α :=
  let left := (Scattered.none width).putRow r
  let right := (Scattered.none width).putRow s
  let met := s.foldl (fun (seen : Scattered α) (j, x) => seen.put j x)
    ⟨left.cells, left.met⟩ |>.met
  met.filterMap fun j =>
    let x := op (left.get j) (right.get j)
    if isZero x then none else some (j, x)

/-- Combines matrices of one shape entry by entry. -/
def zipWith (op : α → α → α) (m n : Matrix α) : Except Error (Matrix α) :=
  if m.height = n.height ∧ m.width = n.width then
    let combine := if m.isSorted && n.isSorted then mergeRows op else scatterRows m.width op
    .ok ⟨m.width, (m.rows.zip n.rows).map fun (r, s) => combine r s⟩
  else .error .unequalShapes

/-- The sum of two matrices. -/
def add (m n : Matrix α) : Except Error (Matrix α) := zipWith Scalar.plus m n

/-- The difference of two matrices. -/
def sub (m n : Matrix α) : Except Error (Matrix α) := zipWith Scalar.minus m n

/-- A multiple of a matrix. -/
def scale (m : Matrix α) (c : α) : Except Error (Matrix α) := do
  let c ← store c
  m.mapM fun x => mul? x c

/-- The product of a row with a matrix, without zeros. -/
def mulRow (r : Row α) (n : Matrix α) : Row α :=
  (r.foldl (fun s (j, x) => (n.row j).foldl (fun s (k, y) => s.put k (Scalar.times x y)) s)
    (Scattered.none n.width)).gather.filter fun (_, x) => !Scalar.isZero x

/-- The product of two matrices. -/
def mul (m n : Matrix α) : Except Error (Matrix α) :=
  if m.width = n.height then .ok ⟨n.width, m.rows.map fun r => mulRow r n⟩
  else .error .unequalSizes

/-- The transpose; cells keep their order. -/
def transpose (m : Matrix α) : Matrix α :=
  let rows := m.entries.foldl (fun (rows : Array (Row α)) (i, j, x) =>
    rows.modify j ((i, x) :: ·)) (Array.replicate m.width [])
  ⟨m.height, rows.map List.reverse⟩

/-- The sum of the first row. -/
def scalarValue (m : Matrix α) : α := Scalar.sum ((m.row 0).map (·.2))

/-- The matrix with values on the diagonal; zeros are not stored. -/
def diagonal (xs : List α) : Matrix α :=
  ⟨xs.length, (xs.zipIdx.map fun (x, i) => if isZero x then [] else [(i, x)]).toArray⟩

/-- A row as a list of all its entries. -/
def denseRow (m : Matrix α) (i : Nat) : List α :=
  let s := (Scattered.none m.width).putRow (m.row i)
  (List.range m.width).map s.get

/-- The elementwise product; a value, row or column may stand for a matrix. -/
def hadamard (m n : Matrix α) : Except Error (Matrix α) :=
  if m.height = n.height ∧ m.width = n.width then zipWith Scalar.times m n
  else if n.height = 1 ∧ n.width = 1 then m.scale n.scalarValue
  else if m.height = 1 ∧ m.width = 1 then n.scale m.scalarValue
  else if m.width = 1 ∧ n.height = 1 then mul m n
  else if m.height = 1 ∧ n.width = 1 then mul n m
  else if n.height = 1 ∧ m.width = n.width then mul m (diagonal (n.denseRow 0))
  else if m.height = 1 ∧ m.width = n.width then mul n (diagonal (m.denseRow 0))
  else if n.width = 1 ∧ m.height = n.height then mul (diagonal (n.transpose.denseRow 0)) m
  else if m.width = 1 ∧ m.height = n.height then mul (diagonal (m.transpose.denseRow 0)) n
  else .error .unequalShapes

/-- The sum of all values. -/
def total (m : Matrix α) : Except Error α :=
  sum? (m.rows.toList.map fun r => Scalar.sum (r.map (·.2)))

/-- Matrices on top of each other. -/
def stack : List (Matrix α) → Except Error (Matrix α)
  | [] => .error .malformed
  | m :: ms =>
    if ms.all fun n => n.width = m.width then
      .ok ⟨m.width, ms.foldl (fun rows n => rows ++ n.rows) m.rows⟩
    else .error .malformed

/-- A single row, repeated. -/
def replicate (n : Int) (m : Matrix α) : Except Error (Matrix α) :=
  if m.height ≠ 1 then .error (.refused .repeatedRows)
  else if n < 0 then .error .malformed
  else .ok ⟨m.width, Array.replicate n.toNat (m.row 0)⟩

/-- The rows from `lo` up to `hi`. Bounds may count from the end, which is -1. -/
def slice (m : Matrix α) (lo hi : Int) : Except Error (Matrix α) := do
  let hi := min hi m.height
  let first ← itemAt m.rowStarts lo
  let last ← itemAt m.rowStarts hi
  if last < first ∨ hi + 1 < lo then throw .malformed
  if hi < lo then throw .outOfRange
  if (0 ≤ lo) = (0 ≤ hi) then
    let from' (i : Int) : Nat := (if i < 0 then i + m.height + 1 else i).toNat
    return ⟨m.width, (m.storage.select (from' lo) (from' hi)).rows⟩
  else if m.stored = 0 then return empty (hi - lo).toNat m.width
  else throw .outOfRange

/-- One of the rows by itself. -/
def rowMatrix (m : Matrix α) (i : Nat) : Matrix α := ⟨m.width, #[m.row i]⟩

/-- The rows in a new order, each sorted. -2 is the last row. -/
def permute (m : Matrix α) (order : Nat → Except Error Int) : Except Error (Matrix α) := do
  let chosen ← (List.range m.height).mapM fun i => do
    let r ← order i
    let r : Int := if r < 0 then r + m.height + 1 else r
    if r < 0 ∨ (m.height : Int) ≤ r then throw .outOfRange
    return r.toNat
  let shuffled := m.storage.shuffle chosen
  if m.stored < shuffled.cells.size then .error .outOfRange
  else .ok ⟨m.width, shuffled.rows.map sortRow⟩

/-- The greatest value in storage. -/
def greatest? (m : Matrix α) : Option α :=
  match m.values with
  | [] => none
  | x :: xs => some (xs.foldl Scalar.max x)

/-- The mean of all rows. -/
def mean (m : Matrix α) : Except Error (Matrix α) := do
  if m.height = 0 then .error .divisionByZero
  else
    let share : α := 1 / Scalar.ofNat m.height
    let scaled ← m.scale share
    let sums := scaled.rows.foldl (fun s r => s.putRow r) (Scattered.none m.width)
    let cells := (List.range m.width).filterMap fun j =>
      let x := sums.get j
      if isZero x then none else some (j, x)
    return ⟨m.width, #[cells]⟩

end Matrix

end BeliefLogic
