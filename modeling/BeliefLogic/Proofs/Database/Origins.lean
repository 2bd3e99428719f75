import BeliefLogic.Proofs.Database.Listing

/-!
# Where listed facts come from

Facts are listed by the names that their numbers have at the end. A schema that gives way to a typed
one does not keep its numbers, so facts kept before are listed with other symbols.
-/

namespace BeliefLogic

open Outcome Run List Dictionary Symbols

variable {α : Type} {x : Unit} {r : World α × Database α} {t : Typing}
variable {o : Operand α}

namespace Run

variable [Scalar α]

/-- A matrix has entries only where the schema locates facts. -/
theorem completeFacts_tracks (hdb : db.Tracks p stated) (h : completeFacts (w, db) = .ok x r)
    (ho : r.2.relations.get? p = some o) :
    (p.arity = 2 ∨ p.arity = 1) ∧ ∃ m, o = .matrix m ∧
      ∀ e ∈ m.entries, ∃ args, stated args ∧ r.2.schema.Locates p args e.1 e.2.1 := by
  obtain ⟨hschema, hrelations⟩ := completeFacts_relations h
  rcases hrelations p with ⟨-, hget⟩ | ⟨q, shape, m, hq, hget, -, hm⟩
  · rw [hget, hdb.relations] at ho
    cases ho
  · obtain rfl := Option.some.inj (hget.symm.trans ho)
    obtain ⟨harity, es, hes, -, hall⟩ := hdb.places q ((mem_entries_iff hdb.keys).1 hq)
    refine ⟨harity, m, rfl, ?_⟩
    rintro ⟨i, j, y⟩ hy
    rw [hes, Pending.places_ofPlaces] at hm
    obtain ⟨z, hz, -⟩ := ((Matrix.ofWeights_ok hm).2.2 i j y).1 hy
    obtain ⟨v, hv⟩ := Matrix.exists_mem_of_addUp hz
    exact hschema ▸ hall (i, j, v) (Matrix.mem_placeValues.1 hv)

/-- **Facts are listed as lines state them.** If no line states a fact of a relation before types
are first declared, its matrix can be listed, and a line states each listed fact by its fields. -/
theorem addFacts_lists_stated {w' : World α} {lines : List String}
    (hload : addFacts lines (w, .ofSchema .emptyUntyped) = .ok () (w', db))
    (hfirst : w.settings.ignoreTypes = true ∨ FactLine.DeclaredFirst α lines p) {o : Operand α}
    (ho : db.relations.get? p = some o) {σ : Type} (u : World α) (s : σ) :
    ∃ m listed, o = .matrix m ∧ relationFacts db p m (u, s) = .ok listed (u, s) ∧
      ∀ e ∈ listed, ∃ line ∈ lines, ∃ args, FactLine.States line p args ∧ e.1 = args.map some := by
  obtain ⟨v, d, hloads, hcomplete⟩ := addFacts_ok hload
  have hread := hloads.tracks ⟨rfl, nodup_nil, fun _ h => (by cases h)⟩ hfirst
  obtain ⟨harity, m, rfl, hm⟩ := completeFacts_tracks hread hcomplete ho
  choose! names hstated hlocated using hm
  refine ⟨m, _, rfl, relationFacts_run harity names fun e he => ⟨?_, hlocated e he⟩, fun e he => ?_⟩
  · obtain ⟨line, -, hstates⟩ := hstated e he
    exact hstates.1.symm
  · obtain ⟨y, hy, rfl⟩ := mem_map.1 he
    obtain ⟨line, hline, hstates⟩ := hstated y hy
    exact ⟨line, hline, names y, hstates, rfl⟩

end Run

section Shapes

variable [Scalar α] {s : Schema} {db d : Database α} {p : Predicate}

/-- What becomes of a database: lines are added to it, or to a partner that shares its schema. The
schema that replaces the partner's when it first declares types is handed over too, which only adds
states. -/
inductive Database.Course (db : Database α) : Database α → Prop
  | start : Course db db
  | added {d d' : Database α} {lines : List String} {w w' : World α} (h : Course db d)
    (hadd : addFacts lines (w, d) = .ok () (w', d')) : Course db d'
  | shared {d e e' : Database α} {lines : List String} {w w' : World α} (h : Course db d)
    (hsame : e.schema = d.schema) (hadd : addFacts lines (w, e) = .ok () (w', e')) :
    Course db { d with schema := e'.schema }

theorem Database.Loads.relations_eq {c : Settings α} {lines : List String} (h : db.Loads c lines d) :
    d.relations = db.relations := by
  induction h with
  | nil => rfl
  | @concat _ _ _ d _ _ _ htakes ih =>
    cases htakes with
    | mark q =>
      obtain ⟨_, _, hmark⟩ := d.markParam_eq q
      exact hmark ▸ ih
    | nothing | types | fact => exact ih

/-- **Matrices have the shape of the symbols that were known when they were made**, whatever lines
are added to a database and its partners. Later symbols do not change it. -/
theorem Database.Course.shaped (h : (ofSchema s).Course db) (ho : db.relations.get? p = some o) :
    ∃ d m shape, (ofSchema s).Course d ∧ d.Course db ∧ o = .matrix m ∧ d.relations.get? p = some o ∧
      relationShape d.schema p = .ok shape ∧ m.Shaped shape.1 shape.2 := by
  induction h with
  | start => cases ho
  | @added _ d' _ _ _ h hadd ih =>
    obtain ⟨_, _, hloads, hcomplete⟩ := addFacts_ok hadd
    obtain ⟨hschema, hrelations⟩ := completeFacts_relations hcomplete
    rcases hrelations p with ⟨-, hget⟩ | ⟨_, shape, m, -, hget, hshape, hm⟩
    · rw [hget, hloads.relations_eq] at ho
      obtain ⟨d, m, shape, hd, hcourse, hstored⟩ := ih ho
      exact ⟨d, m, shape, hd, hcourse.added hadd, hstored⟩
    · obtain rfl := Option.some.inj (hget.symm.trans ho)
      exact ⟨d', m, shape, h.added hadd, .start, rfl, hget, hschema ▸ hshape,
        (Matrix.ofWeights_ok hm).1⟩
  | shared _ hsame hadd ih =>
    obtain ⟨d, m, shape, hd, hcourse, hstored⟩ := ih ho
    exact ⟨d, m, shape, hd, hcourse.shared hsame hadd, hstored⟩

end Shapes

/-- No third field that is read as a weight without types is below zero. -/
def FactLine.ThirdNonneg [Scalar α] (c : Settings α) (s : Schema) (lines : List String) : Prop :=
  c.weightedTuples = true → s.isTypeless = true → ∀ before line after,
    lines = before ++ line :: after →
    (c.ignoreTypes = false → ∀ l ∈ before, ¬ DeclaresTypes α l) → ∀ functor a b (x : α),
    Text.fields '\t' (Text.strip line) = [functor, a, b] → weight? b = some x → 0 ≤ x

section Weights

variable [ExactScalar α] {s : Schema} {c : Settings α} {db d : Database α} {lines : List String}
  {p : Predicate} {w : World α}

theorem FactLine.IsChecked.nonneg {y : α} (h : IsChecked y) : 0 ≤ y := by
  rcases h with h | h | h | h
  · exact h ▸ zero_le_one
  · exact h
  · exact le_of_lt h
  · exact not_lt.1 h

/-- Only third fields bring in weights below zero. -/
theorem Database.Loads.nonneg (h : db.Loads c lines d) (hdb : db.pending = {})
    (hthird : FactLine.ThirdNonneg c db.schema lines) :
    ∀ e ∈ d.pending.entries, ∀ y ∈ e.2.weights, 0 ≤ y := by
  induction h with
  | nil => simp [hdb]
  | @concat lines line _ d _ hread hsaid htakes ih =>
    have hweights := ih fun hw hs before l after heq =>
      hthird hw hs before l (after ++ [line]) (by simp [heq])
    cases htakes with
    | nothing | types => exact hweights
    | mark q =>
      obtain ⟨_, _, hmark⟩ := d.markParam_eq q
      exact hmark ▸ hweights
    | @fact _ f _ _ _ hf _ _ =>
      intro e he y hy
      rcases mem_entries_put he with he | rfl
      · exact hweights e he y hy
      rcases mem_cons.1 hy with rfl | hy
      · rcases hsaid.checked f hf with hchecked | ⟨hs, hw, b, hfields, hb⟩
        · exact hchecked.nonneg
        · obtain ⟨hs, hundeclared⟩ := hread.undeclared hs
          exact hthird hw hs lines line [] rfl hundeclared _ _ b _ hfields hb
      · cases hget : d.pending.get? f.predicate with
        | none => simp [hget] at hy
        | some q =>
          simp only [hget] at hy
          exact hweights _ (mem_of_lookup hget) y hy

/-- **Weights are not negative** in what lines bring into an empty database, unless a third field
below zero is read as a weight without types. -/
theorem addFacts_nonneg {w' : World α} (hload : addFacts lines (w, .ofSchema s) = .ok () (w', db))
    (hthird : FactLine.ThirdNonneg w.settings s lines) (ho : db.relations.get? p = some o) :
    ∃ m, o = .matrix m ∧ ∀ e ∈ m.entries, 0 ≤ e.2.2 := by
  obtain ⟨v, d, hloads, hcomplete⟩ := addFacts_ok hload
  have hweights := hloads.nonneg rfl hthird
  rcases (completeFacts_relations hcomplete).2 p with ⟨-, hget⟩ | ⟨q, shape, m, hq, hget, -, hm⟩
  · rw [hget, hloads.relations_eq] at ho
    cases ho
  · obtain rfl := Option.some.inj (hget.symm.trans ho)
    refine ⟨m, rfl, ?_⟩
    rintro ⟨i, j, y⟩ hy
    obtain ⟨z, hz, hstore⟩ := ((Matrix.ofWeights_ok hm).2.2 i j y).1 hy
    obtain rfl := Except.ok.inj ((Scalar.store_eq z).symm.trans hstore)
    refine Matrix.addUp_induction hz (fun x hx => ?_) fun _ _ => add_nonneg
    have hplace := (of_mem_zip (Matrix.mem_placeValues.1 hx)).2
    exact hweights _ hq x (mem_reverse.1 (of_mem_zip hplace).2)

end Weights

namespace Run

variable [Scalar α] {file line : String} {number : ℕ} {g : Goal} {w w' : World α}
  {db db' : Database α}

theorem addFactLine_signature (hread : ∃ s, FactLine.classify w.settings db.schema file number line =
      .ok (.signature s) ∧ s.goal = g)
    (h : declareSignature file number ⟨g⟩ (w, db) = .ok () (w', db')) :
    addFactLine file number line (w, db) = .ok () (w', db') := by
  obtain ⟨⟨_⟩, hread, rfl⟩ := hread
  exact bind_ok.2 ⟨_, _, rfl, bind_ok.2 ⟨_, _, rfl, bind_ok.2 ⟨_, _, lift_ok.2 ⟨hread, rfl⟩, h⟩⟩⟩

omit [Scalar α] in
/-- The first declaration of types replaces the schema without types. -/
theorem declareSignature_untyped (hs : db.schema.isTypeless = true)
    (hignore : w.settings.ignoreTypes = false)
    (h : ∀ log, onSchema (declareTypes g.functor g.args)
      ({ w with log }, { db with schema := .emptyTyped }) = .ok () ({ w with log }, db')) :
    ∃ log, declareSignature file number ⟨g⟩ (w, db) = .ok () ({ w with log }, db') := by
  cases huntouched : db.schema.isUntouched
  · exact ⟨_, bind_ok.2 ⟨_, (w, db), rfl, by
      simp only [hignore]
      exact bind_ok.2 ⟨db, (w, db), rfl, by
        simp only [hs, huntouched]
        exact bind_ok.2 ⟨_, _, rfl, bind_ok.2 ⟨_, _, rfl, h _⟩⟩⟩⟩⟩
  · exact ⟨w.log, by simpa [declareSignature, hs, hignore, huntouched] using h w.log⟩

end Run

theorem Matrix.mem_entries_ofWeights_single [ExactScalar α] {h w i j : ℕ} {x : α} {m : Matrix α}
    (hm : ofWeights h w [(i, j, x)] = .ok m) : (i, j, x) ∈ m.entries :=
  ((ofWeights_ok hm).2.2 i j x).2 ⟨x, by simp [placeValues, columnValues, addUp], Scalar.store_eq x⟩

namespace Sample

def loading (log : Array LogLine := #[]) : World ℚ := { settings := {}, log }

/-- A fact stands before its types. Weights stand in third and fourth fields. -/
def lateLines : List String := ["r\ta\t3", "# :- q(t,t)", "# :- r(t)", "q\tc\td\t2"]

/-- What is kept of the first line. -/
def lateBefore : Database ℚ where
  schema := .untyped (entities.intern "a").2
  pending := ⟨[(⟨"r", 1⟩, { weights := [3], rows := [0], columns := [(entities.intern "a").1] })]⟩

def lateDeclared : Schema := .typed
  { first := ⟨[(⟨"q", 2⟩, "t")]⟩, second := ⟨[(⟨"q", 2⟩, "t")]⟩, tables := ⟨[("t", entities)]⟩
    declarations := ["q(t,t)"] }

def lateTypes (t : Symbols) : Schema := .typed
  { first := ⟨[(⟨"q", 2⟩, "t"), (⟨"r", 1⟩, "t")]⟩, second := ⟨[(⟨"q", 2⟩, "t")]⟩
    tables := ⟨[("t", t)]⟩, declarations := ["q(t,t)", "r(t)"] }

/-- What is kept of all lines. -/
def lateKept : Database ℚ where
  schema := lateTypes ((entities.intern "c").2.intern "d").2
  pending := ⟨lateBefore.pending.entries ++ [(⟨"q", 2⟩, {
    weights := [2], rows := [(entities.intern "c").1]
    columns := [((entities.intern "c").2.intern "d").1] })]⟩

theorem startFacts_lateLines : ∃ w,
    startFacts lateLines (loading, .ofSchema .emptyUntyped) =
      .ok () (w, lateKept) := by
  have hfirst : addFactLine "<no file>" 0 "r\ta\t3"
      (loading, .ofSchema .emptyUntyped) =
        .ok () (loading, lateBefore) := by
    with_unfolding_all rfl
  obtain ⟨log, hdeclare⟩ : ∃ log, declareSignature "<no file>" 0 ⟨⟨"q", ["t", "t"]⟩⟩
      (loading, lateBefore) = .ok () (loading log, { lateBefore with schema := lateDeclared }) :=
    declareSignature_untyped rfl rfl fun _ => rfl
  have hq : addFactLine "<no file>" 0 "# :- q(t,t)" (loading, lateBefore) = _ :=
    addFactLine_signature (by with_unfolding_all exact ⟨_, rfl, rfl⟩) hdeclare
  have hr : addFactLine "<no file>" 0 "# :- r(t)"
      (loading log, { lateBefore with schema := lateDeclared }) =
        .ok () (loading log, { lateBefore with schema := lateTypes entities }) :=
    addFactLine_signature (g := ⟨"r", ["t"]⟩) (by with_unfolding_all exact ⟨_, rfl, rfl⟩) rfl
  have hlast : addFactLine "<no file>" 0 "q\tc\td\t2"
      (loading log, { lateBefore with schema := lateTypes entities }) =
        .ok () (loading log, lateKept) := by
    with_unfolding_all rfl
  exact ⟨_, bind_ok.2 ⟨(), _, rfl, bind_ok.2 ⟨⟨⟩, _, forIn_cons_ok hfirst (forIn_cons_ok hq
    (forIn_cons_ok hr (forIn_cons_ok hlast rfl))), rfl⟩⟩⟩

theorem bounds_lateKept : ∀ e ∈ lateKept.pending.entries, ∃ shape,
    relationShape lateKept.schema e.1 = .ok shape ∧
      ∀ y ∈ e.2.places, y.1 < shape.1 ∧ y.2.1 < shape.2 := by
  have hcount : lateKept.schema.count (some "t") = .ok 4 := by
    refine congrArg Except.ok (?_ : ((entities.intern "c").2.intern "d").2.size = 4)
    rw [intern_snd, intern_snd]
    exact size_insertAll ["c", "d"]
  have ha : (entities.intern "a").1 ≤ 3 := (intern_le entities "a").trans_eq (size_insertAll ["a"])
  have hc : (entities.intern "c").1 ≤ 3 := (intern_le entities "c").trans_eq (size_insertAll ["c"])
  have hd : ((entities.intern "c").2.intern "d").1 ≤ 4 := by
    rw [intern_snd]
    exact (intern_le _ _).trans_eq (size_insertAll ["c", "d"])
  intro e he
  rcases mem_cons.1 he with rfl | he
  · refine ⟨(1, 5), then_ok.2 ⟨4, hcount, rfl⟩, ?_⟩
    simp [Pending.places]
    omega
  · obtain rfl := mem_singleton.1 he
    refine ⟨(5, 5), then_ok.2 ⟨4, hcount, then_ok.2 ⟨4, hcount, rfl⟩⟩, ?_⟩
    simp [Pending.places]
    omega

/-- All lines can be loaded, and both weights are stored. -/
theorem exists_addFacts_lateLines : ∃ (w : World ℚ) (db : Database ℚ) (q r : Matrix ℚ),
    addFacts lateLines (loading, .ofSchema .emptyUntyped) = .ok () (w, db) ∧
      (db.relations.get? ⟨"q", 2⟩ = some (.matrix q) ∧ ∃ e ∈ q.entries, e.2.2 = 2) ∧
      db.relations.get? ⟨"r", 1⟩ = some (.matrix r) ∧ ∃ e ∈ r.entries, e.2.2 = 3 := by
  obtain ⟨w, hread⟩ := startFacts_lateLines
  obtain ⟨⟨w', db⟩, hcomplete⟩ := exists_completeFacts_of_bounds (w := w) bounds_lateKept
  have hstored {p : Predicate} {i j : ℕ} {x : ℚ} (hp : p ∈ lateKept.pending.keys)
      (hplaces : ∀ q, (p, q) ∈ lateKept.pending.entries → q.places = [(i, j, x)]) :
      ∃ m, db.relations.get? p = some (.matrix m) ∧ ∃ e ∈ m.entries, e.2.2 = x := by
    rcases (completeFacts_relations hcomplete).2 p with ⟨hnot, -⟩ | ⟨q, shape, m, hq, hget, -, hm⟩
    · exact absurd hp hnot
    · rw [hplaces q hq] at hm
      exact ⟨m, hget, (i, j, x), Matrix.mem_entries_ofWeights_single hm, rfl⟩
  obtain ⟨q, hq⟩ := hstored (p := ⟨"q", 2⟩) (by decide +kernel) (by simp [lateKept, lateBefore]; rfl)
  obtain ⟨r, hr⟩ := hstored (p := ⟨"r", 1⟩) (by decide +kernel) (by simp [lateKept, lateBefore]; rfl)
  exact ⟨w', db, q, r, bind_ok.2 ⟨(), _, hread, hcomplete⟩, hq, hr⟩

theorem declaredFirst_lateLines : FactLine.DeclaredFirst ℚ lateLines ⟨"q", 2⟩ := by
  rintro before declaration after hlines - - args ⟨line, hline, -, -, rest, hfields, -⟩
  have hother : ∀ l ∈ lateLines.dropLast,
      (Text.fields '\t' (Text.strip l)).head? ≠ some "q" := by
    decide +kernel
  refine hother line ?_ (by rw [hfields]; rfl)
  rw [hlines, dropLast_append_cons]
  exact mem_append_left _ hline

/-- One fact comes before the declarations and one after them. -/
theorem addFacts_lists_stated_lateLines : ∃ (w : World ℚ) (db : Database ℚ) (m : Matrix ℚ)
    (listed : List (List (Option String) × ℚ)),
    addFacts lateLines (loading, .ofSchema .emptyUntyped) = .ok () (w, db) ∧
      db.relations.get? ⟨"q", 2⟩ = some (.matrix m) ∧
      relationFacts db ⟨"q", 2⟩ m (w, ()) = .ok listed (w, ()) ∧
      ∀ e ∈ listed, ∃ line ∈ lateLines, ∃ args,
        FactLine.States line ⟨"q", 2⟩ args ∧ e.1 = args.map some := by
  obtain ⟨w, db, _, _, hload, ⟨ho, -⟩, -⟩ := exists_addFacts_lateLines
  obtain ⟨m, listed, hm, hlisted⟩ :=
    addFacts_lists_stated hload (.inr declaredFirst_lateLines) ho w ()
  exact ⟨w, db, m, listed, hload, hm ▸ ho, hlisted⟩

/-- The third field that is read as a weight is above zero. -/
theorem thirdNonneg_lateLines :
    FactLine.ThirdNonneg ({} : Settings ℚ) .emptyUntyped lateLines := by
  intro _ _ before line after heq _ functor a b x hfields hx
  have hthird : ∀ l ∈ lateLines, (Text.fields '\t' (Text.strip l)).length = 3 →
      Text.fields '\t' (Text.strip l) = ["r", "a", "3"] := by
    decide +kernel
  have hline := hthird line (by simp [heq]) (congrArg length hfields)
  obtain rfl : b = "3" := by simp_all
  have hweight : FactLine.weight? "3" = some (3 : ℚ) := by with_unfolding_all rfl
  obtain rfl := Option.some.inj (hweight.symm.trans hx)
  norm_num

theorem addFacts_nonneg_lateLines : ∃ (w : World ℚ) (db : Database ℚ) (q r : Matrix ℚ),
    addFacts lateLines (loading, .ofSchema .emptyUntyped) = .ok () (w, db) ∧
      (db.relations.get? ⟨"q", 2⟩ = some (.matrix q) ∧ (∃ e ∈ q.entries, e.2.2 = 2) ∧
        ∀ e ∈ q.entries, 0 ≤ e.2.2) ∧
      db.relations.get? ⟨"r", 1⟩ = some (.matrix r) ∧ (∃ e ∈ r.entries, e.2.2 = 3) ∧
        ∀ e ∈ r.entries, 0 ≤ e.2.2 := by
  obtain ⟨w, db, q, r, hload, ⟨hq, hq2⟩, hr, hr3⟩ := exists_addFacts_lateLines
  obtain ⟨_, ⟨⟩, hqs⟩ := addFacts_nonneg hload thirdNonneg_lateLines hq
  obtain ⟨_, ⟨⟩, hrs⟩ := addFacts_nonneg hload thirdNonneg_lateLines hr
  exact ⟨w, db, q, r, hload, ⟨hq, hq2, hqs⟩, hr, hr3, hrs⟩

/-- A database without types. -/
def untypedDatabase (t : Symbols) (relations : Dictionary Predicate (Operand ℚ)) : Database ℚ where
  schema := .untyped t
  relations

/-- A kept fact gives its relation a matrix in the shape of the symbols so far. -/
theorem addFacts_pair {w : World ℚ} {t : Symbols} {n : ℕ}
    (relations : Dictionary Predicate (Operand ℚ)) (line functor a b : String)
    (hn : (t.insertAll [a, b]).size = n)
    (hstart : startFacts [line] (w, untypedDatabase t relations) =
      .ok () (w, { untypedDatabase ((t.intern a).2.intern b).2 relations with
        pending := ⟨[(⟨functor, 2⟩, { weights := [1], rows := [(t.intern a).1]
                                      columns := [((t.intern a).2.intern b).1] })]⟩ })) :
    ∃ m : Matrix ℚ, addFacts [line] (w, untypedDatabase t relations) = .ok () (w,
        untypedDatabase (t.insertAll [a, b]) (relations.put ⟨functor, 2⟩ (.matrix m))) ∧
      m.Shaped (n + 1) (n + 1) := by
  subst hn
  set n := (t.insertAll [a, b]).size
  have ha : (t.intern a).1 ≤ n := (id?_bounds (id?_insert_of_some (id?_intern t a) b)).2
  have hb : ((t.intern a).2.intern b).1 ≤ n := by
    rw [intern_snd]
    exact intern_le (t.insert a) b
  obtain ⟨m, hm⟩ : ∃ m, Matrix.ofWeights (n + 1) (n + 1)
      [((t.intern a).1, ((t.intern a).2.intern b).1, (1 : ℚ))] = .ok m :=
    ⟨_, then_ok.2 ⟨_, if_pos (by simp [ha, hb]), Matrix.mapM_ok Scalar.store_eq _⟩⟩
  refine ⟨m, bind_ok.2 ⟨(), _, hstart, ?_⟩, (Matrix.ofWeights_ok hm).1⟩
  simp only [intern_snd] at hm ⊢
  exact bind_ok.2 ⟨_, _, rfl, bind_ok.2 ⟨⟨⟩, _, bind_ok.2 ⟨.yield ⟨⟩, _, bind_ok.2 ⟨(), _,
    bind_ok.2 ⟨_, _, rfl, bind_ok.2 ⟨(n + 1, n + 1), _, rfl, bind_ok.2 ⟨m, _,
      lift_ok.2 ⟨hm, rfl⟩, rfl⟩⟩⟩, rfl⟩, rfl⟩, rfl⟩⟩

/-- Two relations are added to a database, and a third one to a partner. The first matrix keeps the
shape of four symbols, although there are eight in the end. -/
theorem shaped_partner : ∃ (d d' e db early : Database ℚ) (q r : Matrix ℚ),
    addFacts ["q\ta\tb"] (loading, .ofSchema .emptyUntyped) =
        .ok () (loading, d) ∧
      addFacts ["r\tc\td"] (loading, d) = .ok () (loading, d') ∧
      addFacts ["s\te\tf"] (loading, .ofSchema d'.schema) =
        .ok () (loading, e) ∧
      db = { d' with schema := e.schema } ∧ relationShape db.schema ⟨"q", 2⟩ = .ok (9, 9) ∧
      db.relations.get? ⟨"r", 2⟩ = some (.matrix r) ∧ r.Shaped 7 7 ∧
      db.relations.get? ⟨"q", 2⟩ = some (.matrix q) ∧ q.Shaped 5 5 ∧
      early.Course db ∧ relationShape early.schema ⟨"q", 2⟩ = .ok (5, 5) := by
  obtain ⟨q, hq, hfive⟩ := addFacts_pair (w := loading) (n := 4) (t := entities) {} "q\ta\tb"
    "q" "a" "b" (size_insertAll ["a", "b"]) (by with_unfolding_all rfl)
  obtain ⟨r, hr, hseven⟩ := addFacts_pair (w := loading) (n := 6)
    (t := entities.insertAll ["a", "b"]) ⟨[(⟨"q", 2⟩, .matrix q)]⟩ "r\tc\td" "r" "c" "d"
    (size_insertAll ["a", "b", "c", "d"]) (by with_unfolding_all rfl)
  have hsize : (((entities.insertAll ["a", "b"]).insertAll ["c", "d"]).insertAll ["e", "f"]).size = 8 :=
    size_insertAll ["a", "b", "c", "d", "e", "f"]
  obtain ⟨s, hs, -⟩ := addFacts_pair (w := loading) {} "s\te\tf" "s" "e" "f" hsize
    (by with_unfolding_all rfl)
  have hcourse : (Database.ofSchema .emptyUntyped).Course _ := .added (.added .start hq) hr
  obtain ⟨early, _, ⟨height, width⟩, -, hearly, ⟨⟩, -, hshape, hshaped⟩ :=
    (hcourse.shared (e := untypedDatabase _ {}) rfl hs).shaped (p := ⟨"q", 2⟩) rfl
  obtain rfl : height = 5 := hshaped.height_eq.symm.trans hfive.height_eq
  obtain rfl : width = 5 := hshaped.width_eq.symm.trans hfive.width_eq
  refine ⟨_, _, _, _, early, q, r, hq, hr, hs, rfl, ?_, rfl, hseven, rfl, hfive, hearly, hshape⟩
  exact congrArg (fun n => Except.ok (n + 1, n + 1)) hsize

end Sample

end BeliefLogic
