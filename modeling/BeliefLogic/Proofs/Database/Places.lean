import BeliefLogic.Proofs.Database.Lines
import BeliefLogic.Proofs.Matrix.Combined

/-!
# Where facts stand

Facts stand where their symbols are found if none is stated before types are first declared.
-/

namespace BeliefLogic

open Outcome Run List Dictionary Symbols

variable {α : Type} {type : String} {x : Unit} {t : Typing}
variable {args lines : List String} {i j : ℕ} {c : Settings α} {d : Database α}

namespace Schema

/-- The number that a symbol has in a type. -/
def Numbers (s : Schema) (type a : String) (n : ℕ) : Prop :=
  ∃ t, s.table (some type) = .ok t ∧ t.id? a = some n

/-- The place of a fact about symbols in the matrix of its relation. -/
def Locates (s : Schema) (p : Predicate) : List String → ℕ → ℕ → Prop
  | [a], i, j => i = 0 ∧ ∃ x, s.domain p = some x ∧ s.Numbers x a j
  | [a, b], i, j => (∃ x, s.domain p = some x ∧ s.Numbers x a i) ∧
      ∃ y, s.range p = some y ∧ s.Numbers y b j
  | _, _, _ => False

/-- The types of relations and the numbers of symbols stay as they are. -/
structure Grows (s s' : Schema) : Prop where
  numbers : ∀ type a n, s.Numbers type a n → s'.Numbers type a n
  domain : ∀ p type, s.domain p = some type → s'.domain p = some type
  range : ∀ p type, s.range p = some type → s'.range p = some type

variable {s s' s'' : Schema} {p : Predicate} {a : String} {n : ℕ}

theorem Grows.trans (h : s.Grows s') (h' : s'.Grows s'') : s.Grows s'' :=
  ⟨fun type a n hn => h'.numbers type a n (h.numbers type a n hn),
    fun p type hp => h'.domain p type (h.domain p type hp),
    fun p type hp => h'.range p type (h.range p type hp)⟩

theorem numbers_typed :
    (typed t).Numbers type a n ↔
      ∃ symbols, t.tables.get? type = some symbols ∧ symbols.id? a = some n := by
  cases hget : t.tables.get? type <;> simp [Numbers, table, hget]

theorem Locates.mono (h : s.Grows s') (ha : s.Locates p args i j) :
    s'.Locates p args i j := by
  match args, ha with
  | [a], ⟨hi, x, hx, hj⟩ => exact ⟨hi, x, h.domain p x hx, h.numbers x a j hj⟩
  | [a, b], ⟨⟨x, hx, hi⟩, y, hy, hj⟩ =>
    exact ⟨⟨x, h.domain p x hx, h.numbers x a i hi⟩, y, h.range p y hy, h.numbers y b j hj⟩

theorem Numbers.name (h : s.Numbers type a n) : s.name (some type) n = .ok (some a) := by
  obtain ⟨t, ht, hid⟩ := h
  exact then_ok.2 ⟨t, ht, name_of_id? hid⟩

theorem Numbers.eq_iff {a' : String} {n' : ℕ} (h : s.Numbers type a n) (h' : s.Numbers type a' n') :
    n = n' ↔ a = a' := by
  obtain ⟨t, ht, hid⟩ := h
  obtain ⟨t', ht', hid'⟩ := h'
  obtain rfl := ok_unique ht ht'
  constructor
  · rintro rfl
    exact id?_inj hid hid'
  · rintro rfl
    exact Option.mem_unique hid hid'

/-- Facts stand at one place exactly if they are about the same symbols. -/
theorem Locates.eq_iff {args' : List String} {i' j' : ℕ} (h : s.Locates p args i j)
    (h' : s.Locates p args' i' j') (hlen : args.length = args'.length) :
    i = i' ∧ j = j' ↔ args = args' := by
  unfold Locates at h
  split at h
  · obtain ⟨rfl, x, hx, hn⟩ := h
    obtain ⟨a', rfl⟩ := length_eq_one_iff.1 hlen.symm
    obtain ⟨rfl, x', hx', hn'⟩ := h'
    obtain rfl := Option.mem_unique hx hx'
    simp [hn.eq_iff hn']
  · obtain ⟨⟨x, hx, hn⟩, y, hy, hm⟩ := h
    obtain ⟨a', b', rfl⟩ := length_eq_two.1 hlen.symm
    obtain ⟨⟨x', hx', hn'⟩, y', hy', hm'⟩ := h'
    obtain rfl := Option.mem_unique hx hx'
    obtain rfl := Option.mem_unique hy hy'
    simp [hn.eq_iff hn', hm.eq_iff hm']
  · exact h.elim

/-- Interning numbers a symbol. -/
theorem intern_ok (h : s.intern (some type) a = .ok (n, s')) :
    s.Grows s' ∧ s'.Numbers type a n ∧ s'.domain = s.domain ∧ s'.range = s.range := by
  cases s with
  | untyped t =>
    obtain ⟨rfl, rfl⟩ := Prod.mk.inj (Except.ok.inj h)
    have hid := id?_intern t a
    rw [← intern_snd] at hid
    refine ⟨⟨fun _ b m hb => ?_, fun _ _ h => h, fun _ _ h => h⟩, ⟨_, rfl, hid⟩, rfl, rfl⟩
    obtain ⟨t', ht', hb⟩ := hb
    obtain rfl := Except.ok.inj ht'
    exact ⟨_, rfl, (intern_snd t a).symm ▸ id?_insert_of_some hb a⟩
  | typed typing =>
    obtain ⟨t, hget, rfl, rfl⟩ := intern_typed h
    refine ⟨⟨fun type' b m hb => ?_, fun _ _ h => h, fun _ _ h => h⟩, ?_, rfl, rfl⟩
    · obtain ⟨symbols, hsymbols, hid⟩ := numbers_typed.1 hb
      refine numbers_typed.2 ?_
      by_cases htype : type = type'
      · subst htype
        obtain rfl := Option.mem_unique hget hsymbols
        exact ⟨_, by simp, id?_insert_of_some hid a⟩
      · exact ⟨symbols, by simpa [htype] using hsymbols, hid⟩
    · exact numbers_typed.2 ⟨_, by simp, id?_intern t a⟩

/-- A declaration that is accepted agrees with those before. -/
theorem grows_declareArg {t' : Typing} {i : ℤ} (h : t.declareArg p i type = .ok t') :
    (typed t).Grows (typed t') := by
  obtain ⟨d, hd, hknown, rfl⟩ := Typing.declareArg_ok h
  have hput : ∀ q x, d.get? q = some x → (d.put p type).get? q = some x := by
    intro q x hq
    by_cases hpq : p = q
    · subst hpq
      simp [hknown x hq]
    · simpa [hpq] using hq
  have hposition {j : ℤ} {d₁ d₂} (h₁ : t.position j = .ok d₁)
      (h₂ : (t.declared p i type).position j = .ok d₂) {q x} (hq : d₁.get? q = some x) :
      d₂.get? q = some x := by
    obtain ⟨hnew, hold⟩ := Typing.position_declared hd p type
    by_cases hj : j = i
    · subst hj
      rw [ok_unique h₂ hnew]
      exact hput q x (ok_unique h₁ hd ▸ hq)
    · exact ok_unique h₁ (hold j hj ▸ h₂) ▸ hq
  refine ⟨fun type' a n hn => ?_, fun q x => hposition (j := 0) rfl rfl,
    fun q x => hposition (j := 1) rfl rfl⟩
  obtain ⟨symbols, hget, hid⟩ := numbers_typed.1 hn
  refine numbers_typed.2 ⟨symbols, ?_, hid⟩
  rcases Typing.tables_declared t p i type with htables | ⟨hnew, htables⟩
  · rwa [htables]
  · have hne : type ≠ type' := by
      rintro rfl
      simp [Dictionary.contains, hget] at hnew
    simpa [htables, hne] using hget

theorem grows_declareTypes {functor : String} {types : List String} {w : World α}
    {r : World α × Schema} (h : declareTypes functor types (w, .typed t) = .ok x r) :
    r.1 = w ∧ r.2.isTypeless = false ∧ (typed t).Grows r.2 := by
  obtain ⟨_, t', ht, rfl, -, hgrows⟩ := declareTypes_ok (P := fun t' => (typed t).Grows (typed t'))
    (fun _ _ _ _ _ hgrows ht' => hgrows.trans (grows_declareArg ht')) h
  obtain rfl := typed.inj ht
  exact ⟨rfl, rfl, hgrows ⟨fun _ _ _ h => h, fun _ _ h => h, fun _ _ h => h⟩⟩

end Schema

namespace FactLine

/-- The facts of a relation that some lines state. -/
def StatedIn (lines : List String) (p : Predicate) (args : List String) : Prop :=
  ∃ line ∈ lines, States line p args

/-- No line states a fact of a relation before types are first declared. -/
def DeclaredFirst (α : Type) (lines : List String) (p : Predicate) : Prop :=
  ∀ before declaration after, lines = before ++ declaration :: after →
    DeclaresTypes α declaration → (∀ line ∈ before, ¬ DeclaresTypes α line) →
      ∀ args, ¬ StatedIn before p args

theorem DeclaredFirst.of_notDeclares {p : Predicate} (h : ∀ line ∈ lines, ¬ DeclaresTypes α line) :
    DeclaredFirst α lines p := by
  rintro before declaration after rfl hdeclares
  exact absurd hdeclares (h declaration (by simp))

end FactLine

/-- What is kept stands where the schema locates facts, and no matrix is made yet. -/
structure Database.Tracks (db : Database α) (p : Predicate) (stated : List String → Prop) : Prop where
  relations : db.relations = {}
  keys : db.pending.keys.Nodup
  places : ∀ q, db.pending.get? p = some q → (p.arity = 2 ∨ p.arity = 1) ∧
    ∃ es, q = .ofPlaces es ∧ es ≠ [] ∧
      ∀ e ∈ es, ∃ args, stated args ∧ db.schema.Locates p args e.1 e.2.1

namespace Database.Tracks

variable {db : Database α} {p : Predicate} {stated stated' : List String → Prop}

theorem imp (h : db.Tracks p stated) {s : Schema} (himp : ∀ args i j, stated args →
    db.schema.Locates p args i j → stated' args ∧ s.Locates p args i j) :
    ({ db with schema := s } : Database α).Tracks p stated' := by
  refine ⟨h.relations, h.keys, fun q hq => ?_⟩
  obtain ⟨harity, es, hes, hne, hall⟩ := h.places q hq
  refine ⟨harity, es, hes, hne, fun e he => ?_⟩
  obtain ⟨args, hargs, hloc⟩ := hall e he
  exact ⟨args, himp args _ _ hargs hloc⟩

theorem mono (h : db.Tracks p stated) (hmono : ∀ args, stated args → stated' args) :
    db.Tracks p stated' :=
  h.imp fun args _ _ hargs hloc => ⟨hmono args hargs, hloc⟩

theorem grow (h : db.Tracks p stated) {s : Schema} (hs : db.schema.Grows s) :
    ({ db with schema := s } : Database α).Tracks p stated :=
  h.imp fun _ _ _ hargs hloc => ⟨hargs, hloc.mono hs⟩

/-- A fact is kept at its place. -/
theorem keep (h : db.Tracks p stated) {f : Fact α}
    (hf : f.predicate = p → stated f.args ∧ db.schema.Locates p f.args i j) :
    (db.keepAt f i j).Tracks p stated := by
  refine ⟨h.relations, nodup_keys_put h.keys _ _, fun q hq => ?_⟩
  simp only [Database.keepAt, Dictionary.change, get?_put, beq_iff_eq] at hq
  split at hq
  · next hp =>
    obtain ⟨hstated, hloc⟩ := hf hp
    obtain rfl := Option.some.inj hq
    refine ⟨hp ▸ f.predicate_arity, ?_⟩
    obtain ⟨es, hes, hall⟩ : ∃ es, (db.pending.get? f.predicate).getD {} = .ofPlaces es ∧
        ∀ e ∈ es, ∃ args, stated args ∧ db.schema.Locates p args e.1 e.2.1 := by
      cases hget : db.pending.get? f.predicate with
      | none => exact ⟨[], rfl, by simp⟩
      | some q' =>
        obtain ⟨-, es, hes, -, hall⟩ := h.places q' (hp ▸ hget)
        exact ⟨es, hes, hall⟩
    refine ⟨es ++ [(i, j, f.weight)], by simp [hes, Pending.ofPlaces], by simp, fun e he => ?_⟩
    rcases mem_append.1 he with he | he
    · exact hall e he
    · obtain rfl := mem_singleton.1 he
      exact ⟨f.args, hstated, hloc⟩
  · exact h.places q hq

end Database.Tracks

/-- The numbers of symbols locate a fact. -/
theorem Schema.Enters.locates {s s' : Schema} {f : Fact α} (h : s.Enters f i j s') :
    s.Grows s' ∧ s'.isTypeless = s.isTypeless ∧ s'.Locates f.predicate f.args i j := by
  have htypeless {s s' : Schema} {type b : String} {n : ℕ}
      (hs : s.intern (some type) b = .ok (n, s')) : s'.isTypeless = s.isTypeless := by
    obtain ⟨t, -, hs⟩ := then_ok.1 hs
    obtain ⟨-, rfl⟩ := Prod.mk.inj (except_pure_ok.1 hs)
    cases s <;> rfl
  cases h with
  | one hdomain h =>
    obtain ⟨hgrows, hnumber, hdom, -⟩ := intern_ok h
    exact ⟨hgrows, htypeless h, rfl, _, hdom ▸ hdomain, hnumber⟩
  | two hdomain hrange h h' =>
    obtain ⟨hgrows, hnumber, hdom, hran⟩ := intern_ok h
    obtain ⟨hgrows', hnumber', hdom', hran'⟩ := intern_ok h'
    refine ⟨hgrows.trans hgrows', (htypeless h').trans (htypeless h),
      ⟨_, ?_, hgrows'.numbers _ _ _ hnumber⟩, _, ?_, hnumber'⟩
    · exact hdom' ▸ hdom ▸ hdomain
    · exact hran' ▸ hran ▸ hrange

variable {w : World α} {db : Database α} {p : Predicate}

section Reading

variable [Scalar α]

/-- Without types after lines, there were none before, and no line declared any. -/
theorem Database.Loads.undeclared (h : db.Loads c lines d) (hd : d.schema.isTypeless = true) :
    db.schema.isTypeless = true ∧
      (c.ignoreTypes = false → ∀ line ∈ lines, ¬ FactLine.DeclaresTypes α line) := by
  induction h with
  | nil => exact ⟨hd, by simp⟩
  | @concat _ line l d _ _ hsaid htakes ih =>
    obtain ⟨hschema, hl⟩ : d.schema.isTypeless = true ∧
        (c.ignoreTypes = false → ∀ g, l ≠ .signature g) := by
      cases htakes with
      | nothing _ htypes => exact ⟨hd, fun hignore g hg => by simp [htypes g hg] at hignore⟩
      | mark p =>
        obtain ⟨_, _, hmark⟩ := d.markParam_eq p
        rw [hmark] at hd
        exact ⟨hd, by simp⟩
      | types => cases hd
      | fact hf _ hplace =>
        refine ⟨hplace.locates.2.1 ▸ hd, ?_⟩
        rintro - g rfl
        cases hf
    obtain ⟨hs, hlines⟩ := ih hschema
    refine ⟨hs, fun hignore => forall_mem_append.2 ⟨hlines hignore, forall_mem_singleton.2 ?_⟩⟩
    exact fun hdeclares => (hsaid.signature.2 hdeclares).elim (hl hignore)

/-- Facts stand at their places when lines are read. -/
theorem Database.Loads.tracks (h : db.Loads c lines d) (hdb : db.Tracks p (FactLine.StatedIn [] p))
    (hfirst : c.ignoreTypes = true ∨ FactLine.DeclaredFirst α lines p) :
    d.Tracks p (FactLine.StatedIn lines p) := by
  suffices key : ∀ rest, (c.ignoreTypes = true ∨ FactLine.DeclaredFirst α (lines ++ rest) p) →
      d.Tracks p (FactLine.StatedIn lines p) from key [] (by rwa [append_nil])
  clear hfirst
  induction h with
  | nil => exact fun _ _ => hdb
  | @concat lines line _ _ _ hread hsaid htakes ih =>
    intro rest hfirst
    rw [append_assoc] at hfirst
    have htracks := ih _ hfirst
    have htracks' : Database.Tracks _ p (FactLine.StatedIn (lines ++ [line]) p) :=
      htracks.mono fun args ⟨l, hl, hstates⟩ => ⟨l, mem_append_left _ hl, hstates⟩
    cases htakes with
    | nothing => exact htracks'
    | mark q =>
      obtain ⟨_, _, hmark⟩ := Database.markParam_eq (α := α) _ q
      exact hmark ▸ ⟨htracks'.relations, htracks'.keys, htracks'.places⟩
    | @types g _ _ _ hignore hstart hdeclare =>
      obtain ⟨-, -, hgrows⟩ := Schema.grows_declareTypes hdeclare
      rcases hstart with hs | ⟨hs, rfl⟩
      · exact htracks'.grow (hs ▸ hgrows)
      · -- no fact of the relation is kept, so that its numbers can be given up
        have hnone := hfirst.resolve_left (by simp [hignore]) lines line rest rfl
          (hsaid.signature.1 ⟨g, rfl⟩) ((hread.undeclared hs).2 hignore)
        exact htracks.imp fun args _ _ hargs _ => absurd hargs (hnone args)
    | @fact _ f _ _ _ hf _ hplace =>
      obtain ⟨hgrows, -, hlocates⟩ := hplace.locates
      refine (htracks'.grow hgrows).keep ?_
      rintro rfl
      exact ⟨⟨line, by simp, hsaid.states f hf⟩, hlocates⟩

end Reading

/-- A fact that is located stands in the matrix of its relation. -/
theorem Schema.Locates.bounds {s : Schema} (h : s.Locates p args i j) (hp : p.arity = args.length) :
    ∃ shape, relationShape s p = .ok shape ∧ i < shape.1 ∧ j < shape.2 := by
  have hcount {x a : String} {n : ℕ} (hn : s.Numbers x a n) : ∃ k, s.count (some x) = .ok k ∧ n ≤ k := by
    obtain ⟨t, ht, hid⟩ := hn
    exact ⟨t.size, then_ok.2 ⟨t, ht, rfl⟩, (id?_bounds hid).2⟩
  unfold Locates at h
  split at h
  · obtain ⟨rfl, x, hx, hn⟩ := h
    obtain ⟨k, hk, hle⟩ := hcount hn
    refine ⟨(1, k + 1), ?_, zero_lt_one, Nat.lt_succ_of_le hle⟩
    rw [relationShape, if_neg (by simp [hp]), hx]
    exact then_ok.2 ⟨k, hk, rfl⟩
  · obtain ⟨⟨x, hx, hn⟩, y, hy, hm⟩ := h
    obtain ⟨k, hk, hle⟩ := hcount hn
    obtain ⟨l, hl, hle'⟩ := hcount hm
    refine ⟨(k + 1, l + 1), ?_, Nat.lt_succ_of_le hle, Nat.lt_succ_of_le hle'⟩
    rw [relationShape, if_pos (by simp [hp]), hx, hy]
    exact then_ok.2 ⟨k, hk, then_ok.2 ⟨l, hl, rfl⟩⟩
  · exact h.elim

namespace Run

variable [ExactScalar α] {β : Type}

/-- Facts that stand in the matrices of their relations can be stored. -/
theorem exists_completeFacts_of_bounds (hdb : ∀ e ∈ db.pending.entries, ∃ shape,
    relationShape db.schema e.1 = .ok shape ∧ ∀ y ∈ e.2.places, y.1 < shape.1 ∧ y.2.1 < shape.2) :
    ∃ r, completeFacts (w, db) = .ok () r := by
  have hstep : ∀ done e rest, db.pending.entries = done ++ e :: rest → ∀ t : World α × Database α,
      t.2.schema = db.schema →
        ∃ t', (do completeRelation e.1 e.2; pure (.yield ⟨⟩) : Run α _ (ForInStep PUnit)) t =
            .ok (.yield ⟨⟩) t' ∧
          t'.2.schema = db.schema := by
    rintro done e rest heq ⟨v, d⟩ hd
    obtain ⟨shape, hshape, hbounds⟩ := hdb e (by rw [heq]; simp)
    have hin : (e.2.places.all fun y => decide (y.1 < shape.1) && decide (y.2.1 < shape.2)) = true := by
      simpa only [all_eq_true, Bool.and_eq_true, decide_eq_true_eq] using hbounds
    obtain ⟨m, hm⟩ : ∃ m, Matrix.ofWeights shape.1 shape.2 e.2.places = .ok m :=
      ⟨_, then_ok.2 ⟨_, if_pos hin, Matrix.mapM_ok Scalar.store_eq _⟩⟩
    exact ⟨(v, d.putRelation e.1 m), bind_ok.2 ⟨_, _, bind_ok.2 ⟨d, _, rfl, bind_ok.2 ⟨shape, _,
      lift_ok.2 ⟨hd ▸ hshape, rfl⟩, bind_ok.2 ⟨m, _, lift_ok.2 ⟨hm, rfl⟩, rfl⟩⟩⟩, rfl⟩, hd⟩
  obtain ⟨u, hu, -⟩ := exists_forIn (t := (w, db))
    (f := fun (e : Predicate × Pending α) _ => do completeRelation e.1 e.2; pure (.yield ⟨⟩)) hstep rfl
  exact ⟨_, bind_ok.2 ⟨db, (w, db), rfl, bind_ok.2 ⟨_, u, hu, rfl⟩⟩⟩

/-- What was read can be stored. -/
theorem exists_completeFacts (hdb : ∀ p, db.Tracks p (FactLine.StatedIn lines p)) :
    ∃ r, completeFacts (w, db) = .ok () r := by
  refine exists_completeFacts_of_bounds fun e he => ?_
  obtain ⟨-, es, hes, hne, hall⟩ := (hdb e.1).places e.2 ((mem_entries_iff (hdb e.1).keys).1 he)
  have hbounds : ∀ y ∈ es, ∃ shape, relationShape db.schema e.1 = .ok shape ∧
      y.1 < shape.1 ∧ y.2.1 < shape.2 := by
    intro y hy
    obtain ⟨args, ⟨line, -, hstates⟩, hloc⟩ := hall y hy
    exact hloc.bounds hstates.1
  obtain ⟨y, hy⟩ := exists_mem_of_ne_nil es hne
  obtain ⟨shape, hshape, -⟩ := hbounds y hy
  refine ⟨shape, hshape, ?_⟩
  rw [hes, Pending.places_ofPlaces]
  intro y hy
  obtain ⟨shape', hshape', hlt⟩ := hbounds y hy
  exact ok_unique hshape hshape' ▸ hlt

/-- A run keeps facts of a relation. -/
def keepsFacts (m : Run α (Database α) β) (t : World α × Database α) (p : Predicate) : Bool :=
  match m t with
  | .ok _ u => decide (p ∈ u.2.pending.keys)
  | .error _ _ => false

/-- Lines can be loaded if no fact comes before types are first declared. -/
theorem exists_bind_completeFacts {m : Run α (Database α) β} {s : Schema}
    (h : keepsFacts m (w, .ofSchema s) p = true) (hread : ∀ x u, m (w, .ofSchema s) = .ok x u →
      (Database.ofSchema s : Database α).Loads w.settings lines u.2)
    (hfirst : ∀ p, w.settings.ignoreTypes = true ∨ FactLine.DeclaredFirst α lines p) :
    ∃ v d a, (m >>= fun _ => completeFacts) (w, .ofSchema s) = .ok () (v, d) ∧
      d.relations.get? p = some (.matrix a) := by
  unfold keepsFacts at h
  split at h
  · next x u hm =>
    obtain ⟨r, hr⟩ := exists_completeFacts fun p =>
      (hread x u hm).tracks ⟨rfl, nodup_nil, fun _ h => (by cases h)⟩ (hfirst p)
    rcases (completeFacts_relations hr).2 p with ⟨hp, -⟩ | ⟨_, _, a, -, ha, -⟩
    · exact absurd (of_decide_eq_true h) hp
    · exact ⟨r.1, r.2, a, bind_ok.2 ⟨x, u, hm, hr⟩, ha⟩
  · cases h

end Run

end BeliefLogic
