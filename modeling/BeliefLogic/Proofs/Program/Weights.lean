import BeliefLogic.Proofs.Plan.SingleRow
import BeliefLogic.Proofs.Rule.Value

/-!
# Weights of queries

The plan of a rule over stored relations sums the products of the weights of its goals over all
assignments.
-/

namespace BeliefLogic

open Outcome Run List

theorem Program.grants_true (p : Program) : p.Grants fun _ _ _ => True :=
  ⟨fun _ _ _ => trivial, fun _ _ _ _ _ => trivial, fun _ _ _ _ _ _ => trivial⟩

/-- The plan of a rule is that of its circuit. -/
theorem Run.rulePlanned_of_ok {α : Type} {schema : Option Schema} {fuel : ℕ} {mode : Mode} {depth : ℕ}
    {r : Rule} {t t' : World α × Program} {plan : Plan}
    (h : planForRule schema fuel mode depth r t = .ok plan t') :
    RulePlanned t.2 (fun _ _ _ => True) mode depth r plan := by
  have hplan (fuel' : ℕ) (_ : fuel' < fuel) (m : Mode) :
      Moves (Continues (t.2.Sound fun _ _ _ => True))
        (planAt schema fuel' m (depth + 1) : Run α Program Plan) := fun u q u' hq =>
    (planAt_ok t.2.grants_true fuel' m (depth + 1) (by omega) u q u' hq).1
  exact (planForRule_ok hplan h).2.imp (.refl _) fun _ _ _ => trivial

theorem Program.interprets_stored {α : Type} {db : Database α} {p : Program}
    (hplugins : ∀ m, p.plugins.has m = false) {body : List Goal} (hbody : ∀ g ∈ body, p.definesGoal g = false ∧ g.WellAssigned) :
    p.Interprets db (fun _ => none) body where
  plugins := hplugins
  assigned g hg := (hbody g hg).2
  binary g hg hd := by simp [(hbody g hg).1] at hd
  rules g hg _ := (hbody g hg).1
  apart g hg hd := by simp [(hbody g hg).1] at hd

variable {α : Type} [ExactScalar α] {db : Database α} {n : ℕ}

/-- The plan of a rule whose relations are stored, on the row of an entity: the weight of a number
is the sum, over all assignments that give the two to the head, of the products of the weights of
the goals. -/
theorem rulePlan_entry_eq_weight (hdb : db.Regular n) {schema : Option Schema} {fuel : ℕ}
    {mode : Mode} {depth : ℕ} {r : Rule} {w w' : World α} {p p' : Program} {plan : Plan}
    (hplugins : ∀ m, p.plugins.has m = false)
    (hbody : ∀ g ∈ r.body, p.definesGoal g = false ∧ g.WellAssigned)
    (hplan : planForRule schema fuel mode depth r (w, p) = .ok plan (w', p'))
    (hdistinct : plan.isDistinct = true) (copying : Bool) (first : ℕ) (table : PlanTable)
    {symbol : String} {type : Option String} {input output : Matrix α}
    (hinput : db.oneHot symbol type = .ok input) {t t' : World α × Scratch α}
    (heval : Plan.eval db [input] ((Plan.number copying plan first).run table).1.1 t =
      .ok output t') :
    ∃ a, db.idOf? symbol = some a ∧ output.Shaped 1 n ∧ ∀ b < n, output.entry 0 b =
      if mode.isInput 0 then r.weight db n (fun _ => none) a b
      else r.weight db n (fun _ => none) b a := by
  have hplanned := rulePlanned_of_ok hplan
  have hresult := Plan.result_congr hdb (Plan.bare_number copying plan first table)
    (Plan.eval_ok _ heval).1
  obtain ⟨a, ha, hshape, hone⟩ := hdb.oneHot_ok hinput
  have hcarries := hplanned.value hdb (Program.interprets_stored hplugins hbody)
    (fun g hg hd => by simp [(hbody g hg).1] at hd) hdistinct hshape hresult
  exact ⟨a, ha, hcarries.shaped, hcarries.oneHot a (hdb.idOf?_lt ha) hone⟩

namespace Sample

/-- Two entities. -/
def symbols : Symbols where
  names := #["a", "b"]
  index := Std.HashMap.insert (.insert {} "a" 0) "b" 1
  index_iff s i := by
    simp only [Std.HashMap.getElem?_insert, beq_iff_eq]
    rcases i with _ | _ | i <;> grind

/-- A graph on them, with weights on its edges, and weights of the nodes. -/
def database : Database ℚ where
  schema := .untyped symbols
  relations := ⟨[(⟨"edge", 2⟩, .matrix ⟨3, #[[], [(1, 1), (2, 2)], [(2, 3)]]⟩),
    (⟨"node", 1⟩, .matrix ⟨3, #[[(1, 2), (2, 5)]]⟩)]⟩

/-- Paths of two edges, by the weight of their middle. -/
def paths : Rule where
  head := some ⟨"path", ["X", "Y"]⟩
  body := [⟨"edge", ["X", "Z"]⟩, ⟨"node", ["Z"]⟩, ⟨"edge", ["Z", "Y"]⟩]

def program : Program where
  theory := { dialect := .clause }
  maxDepth := .upTo 10
  normalization := .identity

theorem idOf?_a : database.idOf? "a" = some 1 := (symbols.id?_eq_some_iff "a" 0).2 rfl

theorem regular_database : database.Regular 3 := by
  refine Database.regular_of_entries rfl rfl ?_
  rintro e he
  rcases mem_pair.1 he with rfl | rfl
  · exact ⟨_, rfl, fun _ => by decide, fun h => absurd h (by decide)⟩
  · exact ⟨_, rfl, fun h => absurd h (by decide), fun _ => by decide⟩

def world : World ℚ := { settings := {} }

def ends : Mode := ⟨⟨"path", ["i", "o"]⟩⟩

def plan : Plan :=
  .sequence { inputTypes := some [none] } ["X"] "f_Y3"
    [.act { target := "f_Z1", route := some ("edge(X,Z)", "Z") }
        (.product "X" ⟨⟨"edge", ["i", "o"]⟩⟩ false),
      .act { target := "b_Z2", route := some ("node(Z)", "Z") } (.vector ⟨⟨"node", ["i"]⟩⟩),
      .act { target := "fb_Z", route := some ("Z", "edge(Z,Y)") } (.hadamard "f_Z1" "b_Z2"),
      .act { target := "f_Y3", route := some ("edge(Z,Y)", "Y") }
        (.product "fb_Z" ⟨⟨"edge", ["i", "o"]⟩⟩ false)]
    paths

theorem planForRule_paths : planForRule (some (.untyped symbols)) 2 ends 0 paths (world, program) =
    .ok plan (world, program) := by
  with_unfolding_all rfl

def row : Matrix ℚ := ⟨3, #[[(1, 1)]]⟩

theorem shaped_row : row.Shaped 1 3 := Matrix.shaped_iff.2 (by decide)

theorem oneHot_a : database.oneHot "a" none = .ok row := by
  have hs : database.schema = .untyped symbols := rfl
  have hid : symbols.id? "a" = some 1 := by simpa [Database.idOf?, hs] using idOf?_a
  have hunit : (Matrix.unit 3 1 : Except Error (Matrix ℚ)) = .ok row := by with_unfolding_all rfl
  simp [Database.oneHot, Database.resolve, hs, Schema.defaultType, Schema.table, hid,
    regular_database.dim_eq, hunit]

theorem result_plan : plan.result ({} : Settings ℚ) database [row] =
    .ok ⟨3, #[[(2, 34), (1, 2)]]⟩ := by
  with_unfolding_all rfl

end Sample

open Sample in
/-- Two ways lead by edges from the first entity to the second. -/
theorem rulePlan_entry_eq_weight_paths : ∃ output t',
    Plan.eval database [row] ((Plan.number false plan 1).run {}).1.1 (world, {}) =
      .ok output t' ∧ ∃ a, database.idOf? "a" = some a ∧ output.Shaped 1 3 ∧
        ∀ b < 3, output.entry 0 b = paths.weight database 3 (fun _ => none) a b := by
  obtain ⟨t', ht'⟩ := Plan.exists_eval_number regular_database shaped_row (t := (world, {}))
    ⟨rfl, rfl⟩ result_plan false 1 {}
  refine ⟨_, t', ht', ?_⟩
  have hbody : ∀ g ∈ paths.body, program.definesGoal g = false ∧ g.WellAssigned := by
    refine forall_mem_cons.2 ⟨?_, forall_mem_cons.2 ⟨?_, forall_mem_singleton.2 ?_⟩⟩
    all_goals exact ⟨rfl, fun h => absurd h (by decide)⟩
  exact rulePlan_entry_eq_weight regular_database (fun _ => rfl) hbody planForRule_paths
    (by decide) false 1 {} oneHot_a ht'

end BeliefLogic
