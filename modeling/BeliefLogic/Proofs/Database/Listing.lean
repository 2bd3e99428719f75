import BeliefLogic.Proofs.Database.Facts
import BeliefLogic.Proofs.Database.Places

/-!
# Listing what was loaded

A loaded relation lists each of its facts once, with the sum of the weights of its lines.
-/

namespace BeliefLogic

open Outcome Run List

variable {α : Type}
variable {f g : Fact α} {db : Database α}

namespace Fact

variable {facts : List (Fact α)}

theorem id?_number {f : Fact α} (hf : f ∈ facts) {s : String} (hs : s ∈ f.args) :
    (table facts).id? s = some (number (table facts) s) := by
  obtain ⟨n, hn⟩ := exists_id? hf hs
  rw [number, hn, Option.getD_some]

/-- A fact is located at its place. -/
theorem locates_place {f : Fact α} (hf : f ∈ facts) :
    (Schema.untyped (table facts)).Locates f.predicate f.args (f.place (table facts)).1
      (f.place (table facts)).2.1 := by
  have hnumber {s : String} (hs : s ∈ f.args) :
      (Schema.untyped (table facts)).Numbers thing s (number (table facts) s) :=
    ⟨_, rfl, id?_number hf hs⟩
  have hfirst := hnumber mem_cons_self
  cases hsecond : f.second with
  | none => simpa [args, place, hsecond, Schema.Locates, Schema.domain] using hfirst
  | some b =>
    have hb := hnumber (s := b) (by simp [args, hsecond])
    simpa [args, place, hsecond, Schema.Locates, Schema.domain, Schema.range] using ⟨hfirst, hb⟩

theorem place_eq_iff (hf : f ∈ facts) (hg : g ∈ facts) (hp : f.predicate = g.predicate) :
    (place (table facts) f).1 = (place (table facts) g).1 ∧
      (place (table facts) f).2.1 = (place (table facts) g).2.1 ↔ f.args = g.args :=
  (locates_place hf).eq_iff (hp ▸ locates_place hg) (Int.ofNat_inj.1 (by rw [length_args, length_args, hp]))

theorem place_weight (t : Symbols) (f : Fact α) : (place t f).2.2 = f.weight := by
  unfold place
  split <;> rfl

/-- What is listed for the place of a fact are the weights of the fact. -/
theorem placeValues_place (hg : g ∈ facts) :
    Matrix.placeValues (places facts g.predicate) (place (table facts) g).1
      (place (table facts) g).2.1 = weights facts g.predicate g.args := by
  set i := (place (table facts) g).1 with hi
  set j := (place (table facts) g).2.1 with hj
  have hvalues (es : List (ℕ × ℕ × α)) : Matrix.placeValues es i j =
      (es.filter fun e => e.1 = i ∧ e.2.1 = j).map (·.2.2) := by
    rw [Matrix.placeValues, Matrix.columnValues_eq, filter_map, map_map, filter_filter]
    simp [Function.comp_def, Bool.and_comm]
  rw [hvalues, places, filter_map, map_map]
  have hfilter : (facts.filter (·.predicate = g.predicate)).filter
      ((fun e : ℕ × ℕ × α => decide (e.1 = i ∧ e.2.1 = j)) ∘ place (table facts)) =
        facts.filter fun f => f.predicate = g.predicate ∧ f.args = g.args := by
    rw [filter_filter]
    refine filter_congr fun f hf => ?_
    by_cases hp : f.predicate = g.predicate
    · simp only [Function.comp_apply, hp, hi, hj, place_eq_iff hf hg hp, decide_true, Bool.and_true,
        true_and]
    · simp [hp]
  rw [hfilter]
  exact map_congr_left fun f _ => place_weight _ f

end Fact

namespace Run

theorem mapM_run {σ ι β : Type} {t : World α × σ} {xs : List ι} {f : ι → Run α σ β} {g : ι → β}
    (h : ∀ x ∈ xs, f x t = .ok (g x) t) : (xs.mapM f : Run α σ (List β)) t = .ok (xs.map g) t := by
  induction xs with
  | nil => rfl
  | cons x xs ih =>
    obtain ⟨hx, hxs⟩ := forall_mem_cons.1 h
    rw [mapM_cons]
    exact bind_ok.2 ⟨g x, t, hx, bind_ok.2 ⟨xs.map g, t, ih hxs, rfl⟩⟩

/-- A relation with entries where facts are is listed as these facts. -/
theorem relationFacts_run [Scalar α] {σ : Type} {w : World α} {s : σ} {p : Predicate} {m : Matrix α}
    (harity : p.arity = 2 ∨ p.arity = 1) (names : ℕ × ℕ × α → List String)
    (hplace : ∀ e ∈ m.entries, (names e).length = p.arity ∧
      db.schema.Locates p (names e) e.1 e.2.1) :
    relationFacts db p m (w, s) =
      .ok (m.entries.map fun e => ((names e).map some, e.2.2)) (w, s) := by
  have hfirst : db.schema.argType p 0 = .ok (db.schema.domain p) := by cases db.schema <;> rfl
  have hsecond : db.schema.argType p 1 = .ok (db.schema.range p) := by cases db.schema <;> rfl
  refine bind_ok.2 ⟨_, _, lift_ok.2 ⟨hfirst, rfl⟩, ?_⟩
  rcases harity with harity | harity
  · rw [if_pos harity]
    refine bind_ok.2 ⟨_, _, lift_ok.2 ⟨hsecond, rfl⟩, mapM_run fun e he => ?_⟩
    obtain ⟨hlen, hloc⟩ := hplace e he
    obtain ⟨a, b, hab⟩ := length_eq_two.1 (by omega : (names e).length = 2)
    rw [hab] at hloc
    obtain ⟨⟨y, hy, ha⟩, z, hz, hb⟩ := hloc
    rw [hy, hz, hab]
    exact bind_ok.2 ⟨some a, _, lift_ok.2 ⟨ha.name, rfl⟩,
      bind_ok.2 ⟨some b, _, lift_ok.2 ⟨hb.name, rfl⟩, rfl⟩⟩
  · rw [if_neg (by omega), if_neg (by simpa using harity)]
    refine bind_ok.2 ⟨m.entries.zipIdx.map fun e => some ((names e.1).map some, e.1.2.2), (w, s),
      mapM_run fun e he => ?_, ?_⟩
    · obtain ⟨⟨i, j, x⟩, k⟩ := e
      obtain ⟨hlen, hloc⟩ := hplace (i, j, x) (fst_mem_of_mem_zipIdx he)
      obtain ⟨a, ha⟩ := length_eq_one_iff.1 (by omega : (names (i, j, x)).length = 1)
      rw [ha] at hloc
      obtain ⟨hi, y, hy, hname⟩ := hloc
      obtain rfl : i = 0 := hi
      rw [hy, ha]
      exact bind_ok.2 ⟨(), _, rfl, bind_ok.2 ⟨some a, _, lift_ok.2 ⟨hname.name, rfl⟩, rfl⟩⟩
    · refine pure_ok.2 ⟨?_, rfl⟩
      have hlisted : (id ∘ fun e : (ℕ × ℕ × α) × ℕ => some ((names e.1).map some, e.1.2.2)) =
          some ∘ ((fun e : ℕ × ℕ × α => ((names e).map some, e.2.2)) ∘ Prod.fst) := rfl
      rw [filterMap_map, hlisted, filterMap_eq_map, ← map_map, zipIdx_map_fst]

end Run

namespace Fact

variable {facts : List (Fact α)} {p : Predicate} {m : Matrix α}

theorem places_ne_nil : places facts p ≠ [] ↔ ∃ f ∈ facts, f.predicate = p := by
  simp [places]

variable [Scalar α]

/-- The matrix of a relation stores the places of its facts, with summed weights. -/
theorem mem_entries_ofWeights {h w : ℕ} (hm : Matrix.ofWeights h w (places facts p) = .ok m)
    {i j : ℕ} {x : α} :
    (i, j, x) ∈ m.entries ↔ ∃ f ∈ facts, f.predicate = p ∧ (f.place (table facts)).1 = i ∧
      (f.place (table facts)).2.1 = j ∧
        ∃ y, Matrix.addUp (· + ·) (weights facts p f.args) = some y ∧ Scalar.store y = .ok x := by
  rw [(Matrix.ofWeights_ok hm).2.2]
  constructor
  · rintro ⟨y, hy, hx⟩
    obtain ⟨v, hv⟩ := Matrix.exists_mem_of_addUp hy
    obtain ⟨f, hmem, hplace⟩ := mem_map.1 (Matrix.mem_placeValues.1 hv)
    obtain ⟨hf, hp⟩ : f ∈ facts ∧ f.predicate = p := by simpa using hmem
    subst hp
    refine ⟨f, hf, rfl, by rw [hplace], by rw [hplace], y, ?_, hx⟩
    rwa [← placeValues_place hf, hplace]
  · rintro ⟨f, hf, rfl, rfl, rfl, y, hy, hx⟩
    exact ⟨y, by rwa [placeValues_place hf], hx⟩

end Fact

/-- The listing of a relation of which facts were loaded. -/
theorem Database.Completes.relationFacts_run [Scalar α] {facts : List (Fact α)}
    {done : Predicate → Prop} (hdb : db.Completes facts done) {p : Predicate} {m : Matrix α}
    {h w : ℕ} (hm : Matrix.ofWeights h w (Fact.places facts p) = .ok m)
    (hp : ∃ f ∈ facts, f.predicate = p) {σ : Type} (u : World α) (s : σ) :
    ∃ listed, relationFacts db p m (u, s) = .ok listed (u, s) ∧ (listed.map Prod.fst).Nodup ∧
      ∀ args x, (args, x) ∈ listed ↔ ∃ f ∈ facts, f.predicate = p ∧ args = f.args.map some ∧
        ∃ y, Matrix.addUp (· + ·) (Fact.weights facts p f.args) = some y ∧
          Scalar.store y = .ok x := by
  obtain ⟨f0, -, rfl⟩ := hp
  have : Nonempty (Fact α) := ⟨f0⟩
  have hplaces := fun e (he : e ∈ m.entries) => (Fact.mem_entries_ofWeights hm).1 he
  choose! fact hfact hpred hrow hcolumn hweight using hplaces
  refine ⟨_, Run.relationFacts_run f0.predicate_arity (fun e => (fact e).args)
    fun e he => ⟨?_, ?_⟩, ?_, fun args x => ?_⟩
  · rw [Fact.length_args, hpred e he]
  · rw [hdb.schema, ← hrow e he, ← hcolumn e he]
    exact Fact.locates_place (hfact e he)
  · rw [map_map]
    have hplaces := pairwise_map.1 (Matrix.ofWeights_ok hm).2.1
    refine pairwise_map.2 (hplaces.imp_of_mem fun {e e'} he he' hne heq => hne ?_)
    have hargs := map_injective_iff.2 (Option.some_injective _) heq
    rw [← hrow e he, ← hcolumn e he, ← hrow e' he', ← hcolumn e' he', Prod.mk.injEq]
    exact (Fact.place_eq_iff (hfact e he) (hfact e' he')
      ((hpred e he).trans (hpred e' he').symm)).2 hargs
  · rw [mem_map]
    constructor
    · rintro ⟨e, he, heq⟩
      obtain ⟨rfl, rfl⟩ := Prod.mk.inj heq
      exact ⟨fact e, hfact e he, hpred e he, rfl, hweight e he⟩
    · rintro ⟨f, hf, hp, rfl, hx⟩
      have he := (Fact.mem_entries_ofWeights hm).2 ⟨f, hf, hp, rfl, rfl, hx⟩
      refine ⟨_, he, congrArg (fun l => (map some l, x)) ?_⟩
      exact (Fact.place_eq_iff (hfact _ he) hf ((hpred _ he).trans hp.symm)).1
        ⟨hrow _ he, hcolumn _ he⟩

/-- A database that was loaded from lines without types stores what the lines say: its symbols by
first use, a matrix for each relation that is named, and each fact once, with the sum of its
weights. -/
theorem Run.LoadedFrom.lists_facts [Scalar α] {w : World α} {db : Database α} {lines : List String}
    {facts : List (Fact α)} (h : LoadedFrom w db lines)
    (htypes : ∀ line ∈ lines, ¬ FactLine.DeclaresTypes α line)
    (hfacts : Fact.ofLines w.settings.weightedTuples lines = facts) :
    ∃ t, db.schema = .untyped t ∧
      t.toList = (Symbols.null :: Symbols.unknown :: facts.flatMap Fact.args).eraseDups ∧
      ∀ p, ((db.relations.get? p).isSome ↔ ∃ f ∈ facts, f.predicate = p) ∧
        ∀ o, db.relations.get? p = some o →
          ∃ m, o = .matrix m ∧ m.Shaped (if p.arity = 2 then t.size + 1 else 1) (t.size + 1) ∧
            ∀ {σ : Type} (u : World α) (s : σ), ∃ listed,
              relationFacts db p m (u, s) = .ok listed (u, s) ∧ (listed.map Prod.fst).Nodup ∧
              ∀ args x, (args, x) ∈ listed ↔
                ∃ f ∈ facts, f.predicate = p ∧ args = f.args.map some ∧
                  ∃ y, Matrix.addUp (· + ·) (Fact.weights facts p f.args) = some y ∧
                    Scalar.store y = .ok x := by
  have hdb := h.completes htypes
  rw [hfacts] at hdb
  refine ⟨Fact.table facts, hdb.schema, Fact.toList_table facts, fun p => ?_⟩
  by_cases hp : Fact.places facts p = []
  · have hnone := hdb.absent p (not_not.2 hp)
    have hno : ¬ ∃ f ∈ facts, f.predicate = p := fun hf => Fact.places_ne_nil.2 hf hp
    simp [hnone, hno]
  · obtain ⟨m, hget, hm⟩ := hdb.present p hp
    have hfact := Fact.places_ne_nil.1 hp
    refine ⟨by simp [hget, hfact], fun o ho => ?_⟩
    obtain rfl := Option.mem_unique hget ho
    exact ⟨m, rfl, (Matrix.ofWeights_ok hm).1, fun u s => hdb.relationFacts_run hm hfact u s⟩

namespace Sample

def edgeLines : List String := ["edge\ta\tb\t2", "edge\ta\tb", "red\tb"]

def edgeFacts : List (Fact ℚ) :=
  [⟨"edge", "a", some "b", 2⟩, ⟨"edge", "a", some "b", 1⟩, ⟨"red", "b", none, 1⟩]

theorem ofLines_edgeLines : Fact.ofLines true edgeLines = edgeFacts := by
  with_unfolding_all rfl

theorem not_declaresTypes_edgeLines :
    ∀ line ∈ edgeLines, ¬ FactLine.DeclaresTypes ℚ line := by
  have hplain : ∀ line ∈ edgeLines, Text.startsWith "#" (Text.strip line) = false := by
    decide +kernel
  intro line hline hdeclares
  exact absurd hdeclares.1 (by rw [hplain line hline]; exact Bool.false_ne_true)

end Sample

open Sample in
/-- A fact said twice, with weights two and one, is listed with weight three. -/
theorem lists_facts_edgeLines : ∃ (db : Database ℚ) (w' : World ℚ) (t : Symbols) (m : Matrix ℚ)
    (listed : List (List (Option String) × ℚ)),
    addFacts edgeLines ({ settings := {} }, .ofSchema .emptyUntyped) = .ok () (w', db) ∧
      db.schema = .untyped t ∧ t.toList = ["__NULL__", "__OOV__", "a", "b"] ∧
      db.relations.get? ⟨"edge", 2⟩ = some (.matrix m) ∧ m.Shaped 5 5 ∧
      relationFacts db ⟨"edge", 2⟩ m (w', ()) = .ok listed (w', ()) ∧
      (listed.map Prod.fst).Nodup ∧ ([some "a", some "b"], 3) ∈ listed := by
  obtain ⟨w', db, _, hrun, -⟩ := exists_bind_completeFacts (w := { settings := {} })
    (m := startFacts edgeLines) (s := .emptyUntyped) (p := ⟨"edge", 2⟩) (by decide +kernel)
    (fun _ _ h => startFacts_ok h) fun _ => .inr (.of_notDeclares not_declaresTypes_edgeLines)
  obtain ⟨t, hs, htable, hstored⟩ :=
    (LoadedFrom.lines hrun).lists_facts not_declaresTypes_edgeLines ofLines_edgeLines
  have hnames : t.toList = ["__NULL__", "__OOV__", "a", "b"] := htable.trans (by decide)
  obtain ⟨hsome, hlisted⟩ := hstored ⟨"edge", 2⟩
  obtain ⟨o, ho⟩ := Option.isSome_iff_exists.1 (hsome.2 ⟨_, mem_cons_self, rfl⟩)
  obtain ⟨m, rfl, hshape, hm⟩ := hlisted o ho
  obtain ⟨listed, hlist, hnodup, hmem⟩ := hm w' ()
  have hsize : t.size = 4 := by
    have := congrArg List.length hnames
    simpa [Symbols.toList, Symbols.size] using this
  refine ⟨db, w', t, m, listed, hrun, hs, hnames, ho, by simpa [hsize] using hshape, hlist, hnodup,
    (hmem _ _).2 ⟨_, mem_cons_self, rfl, rfl, 3, ?_, rfl⟩⟩
  with_unfolding_all rfl

end BeliefLogic
