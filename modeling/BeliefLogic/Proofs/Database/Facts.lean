import BeliefLogic.Proofs.Database.Lines
import BeliefLogic.Proofs.Matrix.Gathered

/-!
# Facts that are loaded

Over a schema without types a matrix lists each fact once, with the weights of its lines added up.
-/

namespace BeliefLogic

open Outcome Run List Symbols

variable {α : Type} {s : String} {lines : List String} {facts : List (Fact α)}
  {r : World α × Database α} {x : Unit} {f : Fact α} {t : Symbols}

namespace Fact

def ofLines [Scalar α] (weighted : Bool) (lines : List String) : List (Fact α) :=
  lines.filterMap (ofLine? weighted)

/-- The weights with which a fact is listed, in order. -/
def weights (facts : List (Fact α)) (p : Predicate) (args : List String) : List α :=
  (facts.filter fun f => f.predicate = p ∧ f.args = args).map weight

/-- The symbols of facts, each numbered when it is first met. -/
def table (facts : List (Fact α)) : Symbols := Symbols.entities.insertAll (facts.flatMap args)

theorem table_append (facts more : List (Fact α)) :
    table (facts ++ more) = (table facts).insertAll (more.flatMap args) := by
  rw [table, flatMap_append, insertAll_append]
  rfl

theorem toList_table (facts : List (Fact α)) :
    (table facts).toList = (Symbols.null :: Symbols.unknown :: facts.flatMap args).eraseDups := by
  rw [table, toList_insertAll, toList_entities]
  rfl

def number (t : Symbols) (s : String) : ℕ := (t.id? s).getD 0

/-- Where a fact stands in its matrix, and with which weight. -/
def place (t : Symbols) (f : Fact α) : ℕ × ℕ × α :=
  match f.second with
  | none => (0, number t f.first, f.weight)
  | some b => (number t f.first, number t b, f.weight)

theorem exists_id? (hf : f ∈ facts) (hs : s ∈ f.args) :
    ∃ n, (table facts).id? s = some n := by
  rw [← mem_toList, toList_table, mem_eraseDups]
  exact mem_cons_of_mem _ (mem_cons_of_mem _ (mem_flatMap.2 ⟨f, hf, hs⟩))

/-- A fact keeps its place when more facts come. -/
theorem place_append (more : List (Fact α)) (hf : f ∈ facts) :
    place (table (facts ++ more)) f = place (table facts) f := by
  have hnumber {s : String} (hs : s ∈ f.args) :
      number (table (facts ++ more)) s = number (table facts) s := by
    obtain ⟨n, hn⟩ := exists_id? hf hs
    rw [number, number, hn, table_append, id?_insertAll_of_some hn]
  cases hsecond : f.second with
  | none =>
    simp only [place, hsecond]
    rw [hnumber (by simp [args])]
  | some b =>
    simp only [place, hsecond]
    rw [hnumber (by simp [args]), hnumber (by simp [args, hsecond])]

def places (facts : List (Fact α)) (p : Predicate) : List (ℕ × ℕ × α) :=
  (facts.filter (·.predicate = p)).map (place (table facts))

theorem places_concat (facts : List (Fact α)) (f : Fact α) (p : Predicate) :
    places (facts ++ [f]) p =
      if f.predicate = p then places facts p ++ [place (table (facts ++ [f])) f]
      else places facts p := by
  have hold : (facts.filter (·.predicate = p)).map (place (table (facts ++ [f]))) =
      places facts p :=
    map_congr_left fun g hg => place_append [f] (mem_of_mem_filter hg)
  rw [places, filter_append, map_append, hold]
  by_cases hp : f.predicate = p <;> simp [hp]

end Fact

/-- A database without types that has read facts and made no matrix yet. -/
structure Database.Keeping (db : Database α) (facts : List (Fact α)) : Prop where
  relations : db.relations = {}
  schema : db.schema = .untyped (Fact.table facts)
  keys : db.pending.keys.Nodup
  pending : ∀ p, db.pending.get? p =
    if Fact.places facts p = [] then none else some (.ofPlaces (Fact.places facts p))

theorem Database.Keeping.mem_pending {db : Database α} (h : db.Keeping facts)
    {e : Predicate × Pending α} : e ∈ db.pending.entries ↔
      Fact.places facts e.1 ≠ [] ∧ e.2 = .ofPlaces (Fact.places facts e.1) := by
  refine (Dictionary.mem_entries_iff h.keys).trans ?_
  rw [h.pending]
  by_cases hnone : Fact.places facts e.1 = [] <;> simp [hnone, eq_comm]

theorem Database.keeping_ofSchema : (Database.ofSchema .emptyUntyped : Database α).Keeping [] :=
  ⟨rfl, rfl, nodup_nil, fun _ => rfl⟩

theorem Schema.intern_untyped (t : Symbols) (type : Option String) (s : String) :
    (Schema.untyped t).intern type s = .ok ((t.intern s).1, .untyped (t.insert s)) := by
  rw [← intern_snd]
  rfl

theorem Schema.enters_untyped {i j : ℕ} {s : Schema} (h : (Schema.untyped t).Enters f i j s) :
    s = .untyped (t.insertAll f.args) ∧ f.place (t.insertAll f.args) = (i, j, f.weight) := by
  cases h with
  | one _ h =>
    rw [intern_untyped] at h
    obtain ⟨rfl, rfl⟩ := Prod.mk.inj (Except.ok.inj h)
    simp [Fact.args, Fact.place, Fact.number, insertAll, id?_intern]
  | two _ _ h h' =>
    rw [intern_untyped] at h
    obtain ⟨rfl, rfl⟩ := Prod.mk.inj (Except.ok.inj h)
    rw [intern_untyped] at h'
    obtain ⟨rfl, rfl⟩ := Prod.mk.inj (Except.ok.inj h')
    simp [Fact.args, Fact.place, Fact.number, insertAll, id?_intern, id?_insert_of_some (id?_intern t _)]

/-- Keeping a fact numbers its symbols and adds its place. -/
theorem Database.Keeping.keepAt {db : Database α} (hdb : db.Keeping facts) {i j : ℕ} {s : Schema}
    (h : db.schema.Enters f i j s) :
    ({ db with schema := s }.keepAt f i j).Keeping (facts ++ [f]) := by
  have htable : Fact.table (facts ++ [f]) = (Fact.table facts).insertAll f.args := by
    simp [Fact.table_append]
  obtain ⟨rfl, hplace⟩ : s = .untyped (Fact.table (facts ++ [f])) ∧
      f.place (Fact.table (facts ++ [f])) = (i, j, f.weight) := by
    rw [htable]
    exact Schema.enters_untyped (hdb.schema ▸ h)
  refine ⟨hdb.relations, rfl, Dictionary.nodup_keys_put hdb.keys _ _, fun p => ?_⟩
  simp only [Database.keepAt, Dictionary.change, Dictionary.get?_put, Fact.places_concat, hplace,
    hdb.pending]
  by_cases hp : f.predicate = p
  · subst hp
    by_cases hnone : Fact.places facts f.predicate = []
    · simp [hnone, Pending.ofPlaces]
    · simp [hnone, Pending.ofPlaces]
  · simp [hp]

/-- Reading lines keeps their facts. -/
theorem Database.Loads.keeping [Scalar α] {c : Settings α} {db d : Database α}
    (h : db.Loads c lines d) (hdb : db.Keeping facts)
    (hlines : ∀ line ∈ lines, ¬ FactLine.DeclaresTypes α line) :
    d.Keeping (facts ++ Fact.ofLines c.weightedTuples lines) := by
  induction h with
  | nil => simpa [Fact.ofLines] using hdb
  | @concat lines line l d d' _ hsaid htakes ih =>
    have hd := ih fun line' hline' => hlines line' (mem_append_left _ hline')
    have hfact := hsaid.untyped (by rw [hd.schema]; rfl)
    have hsame (hl : l.fact? = none) : Fact.ofLines (α := α) c.weightedTuples (lines ++ [line]) =
        Fact.ofLines c.weightedTuples lines := by
      simp [Fact.ofLines, ← hfact, hl]
    cases htakes with
    | nothing hlacks _ =>
      rw [hsame (Option.eq_none_iff_forall_ne_some.2 fun f hf => ?_)]
      · exact hd
      · have hlacks := hlacks f hf
        simp [Schema.Lacks, hd.schema, Schema.domain, Schema.range] at hlacks
    | mark p =>
      obtain ⟨_, _, hmark⟩ := d.markParam_eq p
      exact hsame rfl ▸ hmark ▸ ⟨hd.relations, hd.schema, hd.keys, hd.pending⟩
    | types => exact absurd (hsaid.signature.1 ⟨_, rfl⟩) (hlines line (by simp))
    | @fact _ f _ _ _ hf _ hplace =>
      have hmore : Fact.ofLines c.weightedTuples (lines ++ [line]) =
          Fact.ofLines c.weightedTuples lines ++ [f] := by
        simp [Fact.ofLines, ← hfact, hf]
      rw [hmore, ← append_assoc]
      exact hd.keepAt hplace

/-- The matrices of some relations of which facts were read are made. -/
structure Database.Completes [Scalar α] (db : Database α) (facts : List (Fact α))
    (done : Predicate → Prop) : Prop where
  schema : db.schema = .untyped (Fact.table facts)
  absent : ∀ p, ¬ done p → db.relations.get? p = none
  present : ∀ p, done p → ∃ m, db.relations.get? p = some (.matrix m) ∧
    Matrix.ofWeights (if p.arity = 2 then (Fact.table facts).size + 1 else 1)
      ((Fact.table facts).size + 1) (Fact.places facts p) = .ok m

namespace Run

variable {w : World α} {db : Database α}

theorem relationShape_untyped (t : Symbols) (p : Predicate) :
    relationShape (.untyped t) p = .ok (if p.arity = 2 then t.size + 1 else 1, t.size + 1) := by
  unfold relationShape
  split <;> rfl

variable [Scalar α]

/-- All facts that are kept get into matrices. -/
theorem completeFacts_keeping (hdb : db.Keeping facts) (h : completeFacts (w, db) = .ok x r) :
    r.2.Completes facts fun p => Fact.places facts p ≠ [] := by
  obtain ⟨hschema, hrelations⟩ := completeFacts_relations h
  refine ⟨hschema.trans hdb.schema, fun p hp => ?_, fun p hp => ?_⟩
  · rcases hrelations p with ⟨-, hget⟩ | ⟨q, _, _, hq, -⟩
    · rw [hget, hdb.relations]
      rfl
    · exact absurd (hdb.mem_pending.1 hq).1 hp
  · rcases hrelations p with ⟨hno, -⟩ | ⟨q, shape, m, hq, hget, hshape, hm⟩
    · have hmem := hdb.mem_pending (e := (p, .ofPlaces (Fact.places facts p))).2 ⟨hp, rfl⟩
      exact absurd (mem_map_of_mem hmem) hno
    · rw [hdb.schema, relationShape_untyped] at hshape
      obtain rfl := Except.ok.inj hshape
      obtain rfl : q = .ofPlaces (Fact.places facts p) := (hdb.mem_pending.1 hq).2
      exact ⟨m, hget, by simpa using hm⟩

/-- A database was loaded from lines without types, in a list or in files. -/
inductive LoadedFrom (w : World α) (db : Database α) : List String → Prop
  | lines {lines : List String} {w' : World α}
    (h : addFacts lines (w, .ofSchema .emptyUntyped) = .ok () (w', db)) : LoadedFrom w db lines
  /-- The lines are those of files, one file after the other. -/
  | files {σ : Type} {s s' : σ} {paths : String} {texts : List (List String)} {w' : World α}
    (hlines : (Text.fields ':' paths).mapM w.files.lines = .ok texts)
    (h : loadFacts paths .emptyUntyped (w, s) = .ok db (w', s')) : LoadedFrom w db texts.flatten

/-- Loading makes the matrices of all facts of the lines. -/
theorem LoadedFrom.completes (h : LoadedFrom w db lines)
    (htypes : ∀ line ∈ lines, ¬ FactLine.DeclaresTypes α line) :
    db.Completes (Fact.ofLines w.settings.weightedTuples lines) fun p =>
      Fact.places (Fact.ofLines (α := α) w.settings.weightedTuples lines) p ≠ [] := by
  cases h with
  | lines h =>
    obtain ⟨v, d, hd, h⟩ := addFacts_ok h
    exact completeFacts_keeping (hd.keeping Database.keeping_ofSchema htypes) h
  | files hlines h =>
    simp only [loadFacts, within, bind_ok] at h
    obtain ⟨b, u, hb, rfl, rfl⟩ := h
    split at hb
    · next x v hload =>
      obtain ⟨rfl, -⟩ := EStateM.Result.ok.inj hb
      obtain ⟨_, v', d, hlines', -, hd, hload⟩ := addFactFiles_ok hload
      obtain rfl := ok_unique hlines hlines'
      exact completeFacts_keeping (hd.keeping Database.keeping_ofSchema htypes) hload
    · cases hb

end Run

end BeliefLogic
