import BeliefLogic.Proofs.Matrix.Gathered
import BeliefLogic.Proofs.Symbols
import BeliefLogic.Proofs.Text
import BeliefLogic.Examples.Reader

/-!
# Examples from lines

An example has the row that is its place among the examples of its mode.
-/

namespace BeliefLogic

open Outcome List Text

variable {α : Type} [ExactScalar α] {t : Symbols} {ls : List ExampleLine}
  {lines : List String} {os : List (Option ExampleLine)}

theorem Mode.parse_inputOutput {functor : String} (h : '/' ∉ functor.toList) :
    Mode.parse (functor ++ "/io") = .ok (.inputOutput functor) := by
  have hfields : fields '/' ("/".intercalate [functor, "io"]) = [functor, "io"] :=
    fields_intercalate rfl (by simpa using h)
  have htext : "/".intercalate [functor, "io"] = functor ++ "/io" := by
    simp [← String.toList_inj]
  rw [Mode.parse, if_pos (by simp), ← htext, hfields]
  rfl

/-- A line of the plain form states nothing, or a relation, an input and outputs. -/
inductive ExampleLine.States : String → Option ExampleLine → Prop
  | blank {line : String} (h : strip line = "") : States line none
  | remark {line : String} (h : startsWith "#" line = true) : States line none
  | listed {line functor input : String} {outputs : List String}
      (hline : strip line = "\t".intercalate (functor :: input :: outputs))
      (hfields : ∀ s ∈ functor :: input :: outputs, '\t' ∉ s.toList)
      (hfunctor : '/' ∉ functor.toList) (hremark : startsWith "#" line = false) :
      States line (some ⟨.inputOutput functor, input, outputs⟩)

theorem ExampleLine.States.parse_eq {line : String} {o : Option ExampleLine} (h : States line o) :
    parse false line = .ok o := by
  cases h with
  | blank h => exact if_pos (by rw [h]; rfl)
  | remark h => exact if_pos (by rw [h, Bool.or_true])
  | listed hline hfields hfunctor hremark =>
    have hcut := fields_intercalate (c := '\t') (t := "\t") rfl hfields
    refine (if_neg (by simp [hline, hremark])).trans ?_
    rw [hline, hcut]
    exact then_ok.2 ⟨_, Mode.parse_inputOutput hfunctor, rfl⟩

namespace Symbols

/-- The name under which a symbol is looked up. -/
def known (t : Symbols) (s : String) : String := if t.has s then s else unknown

def number (t : Symbols) (s : String) : ℕ := (t.intern (t.known s)).1

theorem id?_known (ht : unknown ∈ t.toList) (s : String) :
    t.id? (t.known s) = some (t.number s) := by
  refine id?_of_has ?_
  rw [known]
  split
  · next h => exact h
  · exact Option.isSome_iff_exists.2 (mem_toList.1 ht)

theorem number_le (ht : unknown ∈ t.toList) (s : String) : t.number s ≤ t.size :=
  (id?_bounds (id?_known ht s)).2

end Symbols

namespace Matrix

variable {es : List (ℕ × ℕ × α)} {r s : Row α} {w : ℕ}

theorem Collects.rowEntry_eq (hs : Collects (· + ·) r s) (j : ℕ) : rowEntry s j = rowEntry r j := by
  have hsum (r : Row α) : rowEntry r j = (columnValues r j).sum := by
    induction r with
    | nil => rfl
    | cons e r ih => by_cases he : e.1 = j <;> simp [he, ih]
  rw [hsum r]
  cases hvalues : columnValues r j with
  | nil =>
    refine rowEntry_eq_zero fun e he hej => ?_
    have := (hs.mem_iff e.1 e.2).1 he
    simp [hej, hvalues, addUp] at this
  | cons x xs =>
    have hmem : (j, (x :: xs).sum) ∈ s :=
      (hs.mem_iff j _).2 (by simp [hvalues, addUp, sum_eq_foldl])
    exact rowEntry_of_mem (increasing_nodup hs.increasing) hmem

/-- Places listed row by row make a matrix of summed weights. -/
theorem exists_ofWeights {rs : List (Row α)}
    (hes : ∀ i, (es.filter (·.1 = i)).map (·.2) = rs[i]?.getD []) (hrs : ∀ r ∈ rs, RowBounded w r) :
    ∃ m, ofWeights rs.length w es = .ok m ∧ m.Shaped rs.length w ∧
      ∀ i j, m.entry i j = rowEntry (rs[i]?.getD []) j := by
  have hplaces : ∀ e ∈ es, e.1 < rs.length ∧ e.2.1 < w := by
    intro e he
    have hmem : e.2 ∈ (es.filter (·.1 = e.1)).map (·.2) := mem_map_of_mem (by simpa using he)
    rw [hes] at hmem
    cases hr : rs[e.1]? with
    | none => simp [hr] at hmem
    | some r =>
      rw [hr] at hmem
      exact ⟨(List.getElem?_eq_some_iff.1 hr).1, hrs r (mem_of_getElem? hr) e.2 hmem⟩
  obtain ⟨g, hg⟩ : ∃ g, gatherEntries (· + ·) rs.length w es = .ok g :=
    ⟨_, if_pos (by simpa using hplaces)⟩
  have hsame : g.map id = g := by simp [Matrix.map, mapRows]
  have hm : ofWeights rs.length w es = .ok g :=
    then_ok.2 ⟨g, hg, (mapM_ok Scalar.store_eq g).trans (congrArg _ hsame)⟩
  refine ⟨g, hm, (ofWeights_ok hm).1, fun i j => ?_⟩
  rw [entry_eq, ((gatherEntries_ok hg).2.2 i).rowEntry_eq, hes]

end Matrix

/-- The outputs of an example by their numbers, with the weight of each. -/
def ExampleLine.row (normalize : Bool) (t : Symbols) (l : ExampleLine) : Row α :=
  l.outputs.map fun y =>
    (t.number y, if normalize then 1 / Scalar.ofNat l.outputs.length else 1)

/-- The entries of a mode with one more example. -/
def ExampleEntries.add (normalize : Bool) (t : Symbols) (e : ExampleEntries α) (l : ExampleLine) :
    ExampleEntries α where
  height := e.height + 1
  inputs := (e.height, t.number l.input, 1) :: e.inputs
  outputs := ((l.row normalize t).map fun y => (e.height, y)).reverse ++ e.outputs

/-- What is listed for the rows of a mode is what its examples state. -/
theorem ExampleEntries.rows_foldl (normalize : Bool) (t : Symbols) (ls : List ExampleLine) :
    let e := ls.foldl (add (α := α) normalize t) {}
    e.height = ls.length ∧ ∀ i,
      (e.inputs.reverse.filter (·.1 = i)).map (·.2) =
        (ls.map fun l => [(t.number l.input, 1)])[i]?.getD [] ∧
      (e.outputs.reverse.filter (·.1 = i)).map (·.2) =
        (ls.map (·.row normalize t))[i]?.getD [] := by
  induction ls using reverseRecOn with
  | nil => simp
  | append_singleton ls l ih =>
    obtain ⟨hheight, hrows⟩ := ih
    simp only [foldl_append, foldl_cons, foldl_nil]
    refine ⟨by simp [add, hheight], fun i => ?_⟩
    obtain ⟨hin, hout⟩ := hrows i
    simp only [getElem?_map] at hin hout ⊢
    simp only [add, hheight, reverse_cons, reverse_append, filter_append, map_append, hin, hout]
    by_cases hi : ls.length = i
    · simp [← hi, filter_map]
    · have hget : (ls ++ [l])[i]? = ls[i]? := by grind
      simp [hget, hi, filter_map]

namespace Examples

/-- The matrices of a mode: one-hot inputs, and outputs with their shares. -/
structure Records (normalize : Bool) (t : Symbols) (ls : List ExampleLine) (X Y : Matrix α) :
    Prop where
  inputs : X.Shaped ls.length (t.size + 1)
  outputs : Y.Shaped ls.length (t.size + 1)
  input : ∀ i l, ls[i]? = some l → ∀ c, X.entry i c = if c = t.number l.input then 1 else 0
  output : ∀ i l, ls[i]? = some l → ∀ c, Y.entry i c =
    (l.outputs.map t.number).count c / if normalize then (l.outputs.length : α) else 1
  total : normalize = true → ∀ i l, ls[i]? = some l → l.outputs ≠ [] →
    ∑ c ∈ Finset.range (t.size + 1), Y.entry i c = 1

theorem exists_records (normalize : Bool) (ht : Symbols.unknown ∈ t.toList)
    (ls : List ExampleLine) :
    let e := ls.foldl (ExampleEntries.add (α := α) normalize t) {}
    ∃ X Y, Matrix.ofWeights e.height (t.size + 1) e.inputs.reverse = .ok X ∧
      Matrix.ofWeights e.height (t.size + 1) e.outputs.reverse = .ok Y ∧
      Records normalize t ls X Y := by
  have hrow (l : ExampleLine) : Matrix.RowBounded (t.size + 1) (l.row (α := α) normalize t) := by
    intro e he
    obtain ⟨y, -, rfl⟩ := mem_map.1 he
    exact Nat.lt_succ_of_le (Symbols.number_le ht y)
  obtain ⟨hheight, hrows⟩ := ExampleEntries.rows_foldl (α := α) normalize t ls
  obtain ⟨X, hX, hXshape, hXentry⟩ := Matrix.exists_ofWeights (w := t.size + 1)
    (fun i => (hrows i).1) (by simp [Matrix.RowBounded, Symbols.number_le ht])
  obtain ⟨Y, hY, hYshape, hYentry⟩ := Matrix.exists_ofWeights
    (fun i => (hrows i).2) (by simpa using fun l _ => hrow l)
  rw [length_map] at hX hXshape hY hYshape
  simp only [hheight]
  refine ⟨X, Y, hX, hY, hXshape, hYshape, fun i l hl c => ?_, fun i l hl c => ?_,
    fun hnormalize i l hl hsome => ?_⟩
  · simp [hXentry, hl, eq_comm]
  · rw [hYentry, getElem?_map, hl, Option.map_some, Option.getD_some, ExampleLine.row]
    have hshare : (if normalize then 1 / Scalar.ofNat l.outputs.length else 1 : α) =
      (if normalize then (l.outputs.length : α) else 1)⁻¹ := by split <;> simp
    rw [hshare, div_eq_mul_inv]
    generalize (if normalize then (l.outputs.length : α) else 1)⁻¹ = x
    induction l.outputs with
    | nil => simp
    | cons y ys ih => by_cases hy : t.number y = c <;> simp [ih, hy, add_mul, add_comm]
  · simp only [hYentry, getElem?_map, hl, Option.map_some, Option.getD_some,
      ← Matrix.sum_values_eq (hrow l)]
    simp [ExampleLine.row, Function.comp_def, hnormalize, hsome]

/-- Examples with two matrices for each of some relations. -/
def forRelations (fs : List String) (X Y : String → Matrix α) : Examples α :=
  .ofMatrices ⟨fs.map fun f => (.inputOutput f, X f)⟩ ⟨fs.map fun f => (.inputOutput f, Y f)⟩

theorem addLine_untyped (normalize : Bool) (t : Symbols) (d : Dictionary Mode (ExampleEntries α))
    (l : ExampleLine) :
    addLine normalize (.untyped t) d l = .ok (d.change l.mode {} (·.add normalize t l)) := by
  have hlook (type : Option String) (s : String) :
      entityOrUnknown (.untyped t) type s = .ok (t.number s) := by
    rw [Symbols.number, Symbols.known, Symbols.has, entityOrUnknown, Schema.table]
    cases hs : t.id? s <;> simp [hs, Symbols.intern]
  rw [addLine]
  simp only [hlook, except_mapM_eq (fun y _ => hlook _ y)]
  simp [ExampleEntries.add, ExampleLine.row, Dictionary.change, Function.comp_def]

theorem foldlM_addText (settings : Settings α) {queries : Bool}
    (h : Forall₂ (fun line o => ExampleLine.parse queries line = .ok o) lines os)
    (d : Dictionary Mode (ExampleEntries α)) :
    lines.foldlM (addText settings (.untyped t) queries) d = .ok (os.reduceOption.foldl
      (fun d l => d.change l.mode {} (·.add settings.normalizeOutputs t l)) d) := by
  induction h generalizing d with
  | nil => rfl
  | @cons _ o _ _ ho _ ih =>
    cases o with
    | none => exact then_ok.2 ⟨d, then_ok.2 ⟨none, ho, rfl⟩, ih d⟩
    | some l => exact then_ok.2 ⟨_, then_ok.2 ⟨some l, ho, addLine_untyped _ t d l⟩, ih _⟩

end Examples

theorem Mode.beq_inputOutput (f g : String) :
    (Mode.inputOutput f == Mode.inputOutput g) = (f == g) := by
  have hkey (f : String) : (Mode.inputOutput f).key.toList = f.toList ++ "(i,o)".toList := by
    simp [Mode.key, Mode.inputOutput, Goal.text]
  rw [Bool.eq_iff_iff, Mode.beq_iff_key_eq, beq_iff_eq, ← String.toList_inj, hkey, hkey,
    append_left_inj, String.toList_inj]

/-- A dictionary over a list of names, after one value was changed. -/
theorem Dictionary.change_map {κ ν : Type} [BEq κ] {key : String → κ} {g : String → ν} {a : ν}
    {fs : List String} {f : String} (u : ν → ν) (hkey : ∀ f g, (key f == key g) = (f == g))
    (hfs : fs.Nodup) (ha : f ∉ fs → g f = a) :
    (⟨fs.map fun f => (key f, g f)⟩ : Dictionary κ ν).change (key f) a u =
      ⟨(if f ∈ fs then fs else fs ++ [f]).map fun f' =>
        (key f', if f' = f then u (g f) else g f')⟩ := by
  induction fs with
  | nil => simp [change, put, putEntry, get?, lookup, ha]
  | cons f' fs ih =>
    obtain ⟨hf', hfs⟩ := nodup_cons.1 hfs
    by_cases h : f' = f
    · subst h
      have hrest : ∀ f ∈ fs, f ≠ f' := fun f hf heq => hf' (heq ▸ hf)
      simp +contextual [change, put, putEntry, get?, lookup, hkey, hrest]
    · have hrest := congrArg Dictionary.entries (ih hfs fun hf => ha (by simp [hf, Ne.symm h]))
      simp only [change, put, get?] at hrest
      have hne : (f' == f) = false := beq_false_of_ne h
      have hmem : f ∈ f' :: fs ↔ f ∈ fs := by simp [Ne.symm h]
      simp only [change, put, get?, map_cons, lookup, putEntry, hkey, hne, hmem, Bool.false_eq_true,
        if_false, hrest]
      split <;> simp [h]

namespace Examples

theorem foldl_change (normalize : Bool) (t : Symbols)
    (hls : ∀ l ∈ ls, l.mode = .inputOutput l.mode.functor) :
    ls.foldl (fun d l => d.change l.mode {} (·.add normalize t l)) {} =
      (⟨(ls.map (·.mode.functor)).eraseDups.map fun f => (.inputOutput f,
        (ls.filter (·.mode.functor = f)).foldl (ExampleEntries.add normalize t) {})⟩ :
          Dictionary Mode (ExampleEntries α)) := by
  induction ls using reverseRecOn with
  | nil => rfl
  | append_singleton ls l ih =>
    obtain ⟨hls, hl⟩ := forall_mem_append.1 hls
    rw [foldl_append, foldl_cons, foldl_nil, ih hls, hl l mem_cons_self, Dictionary.change_map _
      Mode.beq_inputOutput]
    · rw [map_append, map_singleton, Symbols.eraseDups_concat]
      simp only [mem_eraseDups]
      congr 1
      refine map_congr_left fun f _ => ?_
      by_cases hf : f = l.mode.functor
      · simp [hf]
      · simp [hf, Ne.symm hf]
    · have := Symbols.nodup_toList (Symbols.empty.insertAll (ls.map (·.mode.functor)))
      rwa [Symbols.toList_insertAll] at this
    · intro hf
      have hnone : ls.filter (·.mode.functor = l.mode.functor) = [] := by
        refine filter_eq_nil_iff.2 fun l' hl' h => hf (mem_eraseDups.2 ?_)
        exact mem_map.2 ⟨l', hl', of_decide_eq_true h⟩
      rw [hnone, foldl_nil]

/-- Over a database without types, examples are read as lines list them: matrices for just the modes
that occur, by first use, with numbers of known symbols or of the unknown entity. -/
theorem ofLines_listed (settings : Settings α) {db : Database α} (hdb : db.schema = .untyped t)
    (ht : Symbols.unknown ∈ t.toList) (hlines : Forall₂ ExampleLine.States lines os) :
    (∀ s, t.intern (t.known s) = (t.number s, t)) ∧
    ∃ X Y : String → Matrix α,
      ofLines settings db false lines =
        .ok (forRelations (os.reduceOption.map (·.mode.functor)).eraseDups X Y) ∧
      ∀ f, Records settings.normalizeOutputs t (os.reduceOption.filter (·.mode.functor = f)) (X f)
        (Y f) := by
  have hmodes : ∀ l ∈ os.reduceOption, l.mode = .inputOutput l.mode.functor := by
    intro l hl
    obtain ⟨line, -, hline⟩ := exists_of_forall₂ hlines.flip _ (reduceOption_mem_iff.1 hl)
    cases hline
    rfl
  have hmade (f : String) := exists_records (α := α) settings.normalizeOutputs ht
    (os.reduceOption.filter (·.mode.functor = f))
  choose X Y hX hY hrecords using hmade
  refine ⟨fun s => Symbols.intern_of_id? (Symbols.id?_known ht s), X, Y, ?_, hrecords⟩
  have hdim (type : String) : db.dim (some type) = .ok (t.size + 1) := by
    rw [Database.dim, hdb]
    rfl
  have hread := foldlM_addText settings (t := t)
    (hlines.imp fun _ _ => ExampleLine.States.parse_eq) {}
  rw [foldl_change _ _ hmodes] at hread
  rw [ofLines, hdb]
  refine then_ok.2 ⟨_, hread, ?_⟩
  rw [ofEntries, mapM_map]
  refine then_ok.2 ⟨_, except_mapM_eq (g := fun f => (.inputOutput f, X f, Y f)) fun f _ => ?_, ?_⟩
  · simp only [Function.comp_apply, exampleTypes, hdb]
    simp only [then_ok]
    exact ⟨_, hdim _, _, hX f, _, hdim _, _, hY f, rfl⟩
  · simp [forRelations, Function.comp_def]

open Symbols in
/-- Examples of two modes, between which stand a remark and a blank line. -/
theorem ofLines_listed_edges :
    let t := ofList [unknown, "a", "b"]
    ∃ X Y : String → Matrix ℚ, ofLines {} { schema := .untyped t } false
        ["edge\ta\tz\n", "# more\n", "node\tb\n", " \n", "edge\tb\ta\tb"] =
          .ok (forRelations ["edge", "node"] X Y) ∧
      (X "edge").entry 1 (t.number "b") = 1 ∧
      ∑ c ∈ Finset.range (t.size + 1), (Y "edge").entry 1 c = 1 := by
  intro t
  have ht : unknown ∈ t.toList := (toList_insertAll empty _).symm ▸ by decide
  have hline (line functor x : String) (ys : List String)
      (h : strip line = "\t".intercalate (functor :: x :: ys) ∧
        (∀ s ∈ functor :: x :: ys, '\t' ∉ s.toList) ∧ '/' ∉ functor.toList ∧
          startsWith "#" line = false) :=
    ExampleLine.States.listed h.1 h.2.1 h.2.2.1 h.2.2.2
  have hdb : ({ schema := .untyped t } : Database ℚ).schema = .untyped t := rfl
  obtain ⟨-, X, Y, hread, hrecords⟩ := ofLines_listed {} hdb ht
    (.cons (hline "edge\ta\tz\n" "edge" "a" ["z"] (by decide +kernel))
      (.cons (show ExampleLine.States "# more\n" none from .remark rfl)
        (.cons (hline "node\tb\n" "node" "b" [] (by decide +kernel))
          (.cons (show ExampleLine.States " \n" none from .blank (by decide))
            (.cons (hline "edge\tb\ta\tb" "edge" "b" ["a", "b"] (by decide +kernel)) .nil)))))
  have hedge := hrecords "edge"
  refine ⟨X, Y, hread, (hedge.input 1 _ rfl _).trans (if_pos rfl),
    hedge.total rfl 1 _ rfl (by decide)⟩

end Examples

end BeliefLogic
