import BeliefLogic.Proofs.Plan.Outline
import BeliefLogic.Inspection.Console
import BeliefLogic.Proofs.Program.Coherence
import BeliefLogic.Proofs.Program.Depth
import BeliefLogic.Proofs.Rule.Written

/-!
# Sessions

Over a database without types, every question is answered as on a new model, as long as modes that
are written the same are the same.
-/

namespace BeliefLogic

open Outcome Run List Grammar

variable {mode : Mode} {β : Type}

theorem Goal.IsPlain.eq_of_text {g g' : Goal} (hg : g.IsPlain) (hg' : g'.IsPlain)
    (h : g.text = g'.text) : g = g' := by
  have hends : Ends [] := ⟨by simp [Stops], by decide⟩
  obtain ⟨left, hread, -⟩ := goal_written hg hends rfl
  obtain ⟨left', hread', -⟩ := goal_written hg' hends rfl
  rw [h] at hread
  exact (Prod.mk.inj (Option.mem_unique hread hread')).1

theorem Goal.IsPlain.eq_of_key {a b : Mode} (ha : a.goal.IsPlain) (hb : b.goal.IsPlain)
    (hkey : a.key = b.key) : a = b := by
  have hgoal : a.goal = b.goal := ha.eq_of_text hb hkey
  rw [Mode.mk.injEq]
  exact hgoal

/-- A goal of plain atoms is used in modes of plain atoms. -/
theorem Goal.UsedAs.isPlain {g : Goal} {m : Mode} (h : g.UsedAs m) (hg : g.IsPlain) :
    m.goal.IsPlain := by
  obtain ⟨hf, hargs⟩ := h
  refine ⟨?_, fun a ha => ?_⟩
  · change Grammar.IsPlain m.functor
    exact hf ▸ hg.functor
  · obtain ⟨x, hx, hxa⟩ := exists_of_forall₂ hargs.flip a ha
    rcases hxa with rfl | rfl | rfl
    · simp [Grammar.IsPlain, isAtomChar]
    · simp [Grammar.IsPlain, isAtomChar]
    · exact hg.args _ hx

variable {α : Type}

namespace Session

inductive Command (α : Type) where
  /-- Set the depth beyond which calls have no answers. -/
  | depth (d : Depth)
  | normalization (n : Normalization) (known : n.IsKnown)
  | param (p : Predicate) (x : Operand α)
  /-- Ask for the answers about an entity, by name. -/
  | ask (mode : Mode) (given : Except Error (Option String × Option String))
    (row : Database α → Option String → Except Error (Matrix α))
  | evaluate (mode : Mode) (inputs : List (Matrix α))

inductive Answer (α : Type) where
  | done
  | weights (d : Dictionary (Option String) α)
  | rows (m : Matrix α)

namespace Command

def mode? : Command α → Option Mode
  | .ask mode _ _ | .evaluate mode _ => some mode
  | _ => none

variable [Scalar α]

def perform : Command α → Modelling α (Answer α)
  | .depth d => do
    resetDepth d
    return .done
  | .normalization n _ => do
    resetNormalization n
    return .done
  | .param p x => do
    putParam p x
    return .done
  | .ask mode given row => return .weights (← Run.ask mode given row)
  | .evaluate mode inputs => return .rows (← planAnswers (← queryPlan mode) inputs)

/-- What a command gives, and the state after it, whether it fails or not. -/
def run (t : World α × Model α) (c : Command α) : Except Error (Answer α) × (World α × Model α) :=
  match c.perform t with
  | .ok a t => (.ok a, t)
  | .error e t => (.error e, t)

def configure (m : Model α) : Command α → Model α
  | .depth d => { m with program := { m.program with maxDepth := d } }
  | .normalization n _ => { m with program := { m.program with normalization := n } }
  | .param p x => { m with database := m.database.map fun db => (db.putParam p x).toOption.getD db }
  | _ => m

end Command

/-- Outcomes that are the same, or refusals of the same unknown constant. -/
def OutcomesAlike (x y : Except Error (Answer α)) : Prop :=
  x = y ∨ ∃ constant type type', x = .error (.refused (.unknownConstant constant type)) ∧
    y = .error (.refused (.unknownConstant constant type'))

/-- The modes that a program and its questions bring into play. -/
def InPlay (p : Program) (cs : List (Command α)) (m : Mode) : Prop :=
  (∃ c ∈ cs, c.mode? = some m) ∨
    ∃ r ∈ p.theory.rules, ∃ g ∈ r.body, g.UsedAs m ∧ p.defines m = true

/-- If all goals are plain, modes in play are told apart. -/
theorem inPlay_apart {p : Program} {cs : List (Command α)}
    (hrules : ∀ r ∈ p.theory.rules, ∀ g ∈ r.body, g.IsPlain)
    (hasked : ∀ c ∈ cs, ∀ mode, c.mode? = some mode → mode.goal.IsPlain) (a b : Mode)
    (ha : InPlay p cs a) (hb : InPlay p cs b) (hkey : a.key = b.key) : a = b := by
  have hplain {m : Mode} (hm : InPlay p cs m) : m.goal.IsPlain := by
    rcases hm with ⟨c, hc, hm⟩ | ⟨r, hr, g, hg, hused, -⟩
    · exact hasked c hc m hm
    · exact hused.isPlain (hrules r hr g hg)
  exact (hplain ha).eq_of_key (hplain hb) hkey

/-- A new model without types. Modes in play are told apart by their texts. -/
structure New (modes : Mode → Prop) (m : Model α) : Prop where
  database : ∃ db symbols, m.database = some db ∧ db.schema = .untyped symbols
  fresh : m.program.plans = {}
  known : m.program.normalization.IsKnown
  apart : ∀ m m', modes m → modes m' → m.key = m'.key → m = m'
  calls : ∀ r ∈ m.program.theory.rules, ∀ g ∈ r.body, ∀ mode, g.UsedAs mode →
    m.program.defines mode = true → modes mode

variable {modes : Mode → Prop} {m : Model α} {db : Database α} {c : Command α} {cs : List (Command α)}

/-- What queries to a new model are planned on. -/
def New.origin (h : New modes m) (s : Settings α) : Origin α where
  schema := m.database.map (·.schema)
  settings := s
  program := m.program
  modes := modes
  fresh := h.fresh
  known := h.known
  apart := h.apart
  calls := h.calls

/-- A model like a new one, which answered questions. -/
structure Used (h : New modes m) (s : Settings α) (m' : Model α) : Prop where
  database : m'.database = m.database
  program : (h.origin s).Coherent Origin.Nothing m'.program

/-- A model that answered questions, beside one over the same database. -/
def Beyond (h : New modes m) (s : Settings α) (a b : Model α) : Prop :=
  Used h s a ∧ b.database = m.database

section

variable {h : New modes m} {s : Settings α}

/-- A model that answered questions plans a query as a new one. -/
theorem agree_queryPlan (hmode : modes mode) :
    Agree (Beside s fun a b => Used h s a ∧ b = m) (queryPlan mode) (queryPlan mode)
      (fun q t q' u => (q.Alike q' ∧ q'.outline = q.outline) ∧ Beside s (Beyond h s) t u)
      (FailsAlike s Eq (Beyond h s)) := by
  have hquery (a : World α × Model α) (ha : a.2.database = m.database) :
      queryPlan mode a = onProgram (compile (h.origin s).schema mode) a := by
    change onProgram (compile (a.2.database.map (·.schema)) mode) a = _
    rw [ha]
    rfl
  have hcompile : Agree (Beside s fun a b => Used h s a ∧ b = m)
      (onProgram (compile (h.origin s).schema mode)) (onProgram (compile (h.origin s).schema mode))
      (fun q t q' u => (q.Alike q' ∧ q'.outline = q.outline) ∧ Beside s (Beyond h s) t u)
      (FailsAlike s Eq (Beyond h s)) := by
    refine (Origin.queriesAlike_compile hmode).taken (focus_eq _ _ _)
      (focus_eq _ _ _) ?_ ?_ ?_
    · exact fun t u htu => ⟨htu.1, htu.2.1, htu.2.2.1.program, congrArg Model.program htu.2.2.2⟩
    · rintro t u ⟨-, -, hused, hu⟩ q v q' v' ⟨hq, hs, hs', hcoherent⟩
      have hdb : u.2.database = m.database := by rw [hu]
      exact ⟨hq, hs, hs', ⟨hused.database, hcoherent⟩, hdb⟩
    · rintro t u ⟨-, -, hused, hu⟩ e v f v' ⟨he, hs, hs', hcoherent⟩
      have hdb : u.2.database = m.database := by rw [hu]
      exact ⟨he, hs, hs', ⟨hused.database, hcoherent⟩, hdb⟩
  intro t u htu
  rw [hquery t htu.2.2.1.database, hquery u (congrArg Model.database htu.2.2.2)]
  exact hcompile t u htu

theorem database_bind {a : World α × Model α} (ha : a.2.database = some db)
    (f : Database α → Modelling α β) : (database >>= f) a = f db a := by
  refine bind_of_ok ?_
  rw [database, state_bind, ha]
  rfl

theorem twins_database (hdb : m.database = some db) {f g : Database α → Modelling α β}
    (hfg : Twins s Error.Alike (Beyond h s) (Beyond h s) (f db) (g db)) :
    Twins s Error.Alike (Beyond h s) (Beyond h s) (database >>= f) (database >>= g) := by
  intro t u htu
  rw [database_bind (htu.2.2.1.database.trans hdb), database_bind (htu.2.2.2.trans hdb)]
  exact hfg t u htu

theorem Used.reset {p : Program} (h' : New modes { m with program := p })
    {m' : Model α} (hused : Used h s m') {p' : Program} (halike : p.Alike p') (hp' : p'.plans = {}) :
    Used h' s { m' with program := p' } :=
  ⟨hused.database, Origin.coherent_of_fresh halike hp'⟩

/-- What is done with the plan of a query is done as by a new model. -/
theorem agree_question (hmode : modes mode) {f : Plan → Modelling α β}
    (hf : ∀ q q', q.Alike q' → q'.outline = q.outline →
      Twins s Error.Alike (Beyond h s) (Beyond h s) (f q) (f q')) :
    Agree (Beside s fun a b => Used h s a ∧ b = m) (queryPlan mode >>= f) (queryPlan mode >>= f)
      (fun x t y u => x = y ∧ Beside s (Beyond h s) t u)
      (FailsAlike s Error.Alike (Beyond h s)) := by
  have hplan := (agree_queryPlan hmode).mono (fun _ _ => id) (fun _ _ _ _ => id)
    fun e t f u (hfail : FailsAlike s Eq (Beyond h s) e t f u) =>
      (⟨.inl hfail.1, hfail.2⟩ : FailsAlike s Error.Alike (Beyond h s) e t f u)
  refine hplan.bind fun q q' => ?_
  rintro t u ⟨⟨halike, houtline⟩, htu⟩
  exact hf q q' halike houtline t u htu

variable [Scalar α]

/-- Plans that are alike have the same answers. -/
theorem twins_planAnswers {q q' : Plan} (houtline : q'.outline = q.outline)
    (inputs : List (Matrix α)) :
    Twins s Error.Alike (Beyond h s) (Beyond h s) (planAnswers q inputs) (planAnswers q' inputs) := by
  obtain ⟨db, symbols, hdb, huntyped⟩ := h.database
  have hnesting : q'.nesting = q.nesting := by
    rw [← Plan.nesting_outline, houtline, Plan.nesting_outline]
  have hevaluate : Twins s Error.Alike (Beyond h s) (Beyond h s)
      (evaluatePlan q inputs >>= fun x => pure x.1)
      (evaluatePlan q' inputs >>= fun x => pure x.1) := by
    have hwithin : Agree (Beside s (Beyond h s)) (within {} (q.eval db inputs))
        (within {} (q'.eval db inputs))
        (fun x t y u => x.1 = y.1 ∧ Beside s (Beyond h s) t u)
        (FailsAlike s Error.Alike (Beyond h s)) := by
      refine (Plan.answersAlike_of_outline (s := s) huntyped houtline inputs).taken (within_eq _ _)
        (within_eq _ _) ?_ ?_ ?_
      · exact fun t u htu => ⟨htu.1, htu.2.1, trivial⟩
      · exact fun t u htu x v y v' hv => ⟨hv.1, hv.2.1, hv.2.2.1, htu.2.2⟩
      · exact fun t u htu e v f v' hv => ⟨hv.1, hv.2.1, hv.2.2.1, htu.2.2⟩
    have hlook (q : Plan) : (evaluatePlan q inputs >>= fun x => pure x.1) =
        database >>= fun db => within {} (q.eval db inputs) >>= fun x => pure x.1 :=
      bind_assoc _ _ _
    rw [hlook, hlook]
    refine twins_database hdb (hwithin.bind fun x y => ?_)
    rintro t u ⟨hxy, htu⟩
    exact .inl ⟨x.1, t, y.1, u, rfl, rfl, hxy, htu⟩
  unfold planAnswers
  rw [hnesting]
  exact Agree.ite (fun _ => Same.bind (twins_fail (fun _ _ => id) _) fun _ => hevaluate)
    fun _ => hevaluate

theorem schema_configure (m : Model α) (c : Command α) :
    (c.configure m).database.map (·.schema) = m.database.map (·.schema) := by
  cases c with
  | param p x =>
    rw [Command.configure, Option.map_map]
    refine Option.map_congr fun db _ => ?_
    rw [Function.comp_apply, Database.putParam]
    split <;> rfl
  | _ => rfl

/-- A question about an entity is answered as by a new model. -/
theorem agree_ask (hmode : modes mode) (given : Except Error (Option String × Option String))
    (row : Database α → Option String → Except Error (Matrix α)) :
    Agree (Beside s fun a b => Used h s a ∧ b = m) (Run.ask mode given row)
      (Run.ask mode given row) (fun x t y u => x = y ∧ Beside s (Beyond h s) t u)
      (FailsAlike s Error.Alike (Beyond h s)) := by
  obtain ⟨db, -, hdb, -⟩ := h.database
  refine agree_question hmode fun q q' halike houtline => ?_
  have hkept (a b : Model α) (hab : Beyond h s a b) : Beyond h s a b := hab
  have htypes (types : Option String × Option String) :
      questionTypes q' types.1 types.2 = questionTypes q types.1 types.2 := by
    simp [questionTypes, firstInputType, halike.inputTypes, halike.outputType]
  refine (twins_lift hkept _).bind fun types => ?_
  rw [htypes]
  refine (twins_lift hkept _).bind fun types => twins_database hdb ?_
  refine (twins_lift hkept _).bind fun x => ?_
  exact (twins_planAnswers houtline [x]).bind fun y => twins_lift hkept _

/-- A parameter is replaced as in a new model. -/
theorem agree_param (p : Predicate) (x : Operand α)
    (h' : New modes ((Command.param p x).configure m)) :
    Agree (Beside s fun a b => Used h s a ∧ b = m) (Command.param p x).perform
      (Command.param p x).perform (fun x t y _ => x = y ∧ t.1.settings = s ∧ Used h' s t.2)
      (fun e t f _ => e.Alike f ∧ t.1.settings = s ∧ Used h' s t.2) := by
  rintro t u ⟨hs, -, hused, hu⟩
  obtain ⟨db, symbols, hdb, -⟩ := h.database
  have hleft : t.2.database = some db := hused.database.trans hdb
  have hright : u.2.database = some db := hu ▸ hdb
  have hparam (a : World α × Model α) (ha : a.2.database = some db) :
      (Command.param p x).perform a =
        (focus (fun m => m.database.getD db) (fun db m => { m with database := some db })
          (modifyChecked (·.putParam p x)) >>= fun _ => pure .done : Modelling α (Answer α)) a := by
    rw [Command.perform, putParam, onDatabase, bind_assoc]
    exact database_bind ha _
  have horigin : (h'.origin s) = h.origin s := by
    simp only [New.origin, schema_configure m (.param p x)]
    rfl
  have hmodify (w : World α) : (modifyChecked (·.putParam p x) : Run α (Database α) Unit) (w, db) =
      (lift (db.putParam p x) >>= setState) (w, db) := rfl
  cases hput : db.putParam p x with
  | ok db' =>
    have hrun (a : World α × Model α) (ha : a.2.database = some db) :
        (Command.param p x).perform a = .ok .done (a.1, { a.2 with database := some db' }) := by
      rw [hparam a ha]
      refine bind_ok.2 ⟨(), _, ?_, rfl⟩
      simp only [focus, ha, Option.getD_some, hmodify, hput]
      rfl
    refine .inl ⟨_, _, _, _, hrun t hleft, hrun u hright, rfl, hs, ?_, ?_⟩
    · simp [Command.configure, hdb, hput, Except.toOption]
    · rw [horigin]
      exact hused.program
  | error e =>
    have hrun (a : World α × Model α) (ha : a.2.database = some db) :
        (Command.param p x).perform a = .error e (a.1, { a.2 with database := some db }) := by
      rw [hparam a ha]
      simp only [bind, EStateM.bind, focus, ha, Option.getD_some, hmodify, hput]
      rfl
    refine .inr ⟨_, _, _, _, hrun t hleft, hrun u hright, .inl rfl, hs, ?_, ?_⟩
    · simp [Command.configure, hdb, hput, Except.toOption]
    · rw [horigin]
      exact hused.program

/-- What a command gives is what it gives on a new model. -/
theorem agree_perform (hc : ∀ mode, c.mode? = some mode → modes mode)
    (h' : New modes (c.configure m)) :
    Agree (Beside s fun a b => Used h s a ∧ b = m) c.perform c.perform
      (fun x t y _ => x = y ∧ t.1.settings = s ∧ Used h' s t.2)
      (fun e t f _ => e.Alike f ∧ t.1.settings = s ∧ Used h' s t.2) := by
  cases c with
  | depth d =>
    rintro t u ⟨hs, -, hused, -⟩
    have halike := hused.program.alike
    exact .inl ⟨.done, _, .done, _, rfl, rfl, rfl, hs, hused.reset h'
      ⟨halike.theory, halike.plugins, rfl, halike.normalization⟩ rfl⟩
  | normalization n known =>
    rintro t u ⟨hs, -, hused, -⟩
    have halike := hused.program.alike
    exact .inl ⟨.done, _, .done, _, rfl, rfl, rfl, hs, hused.reset h'
      ⟨halike.theory, halike.plugins, halike.maxDepth, rfl⟩ rfl⟩
  | param p x => exact agree_param p x h'
  | ask mode given row =>
    refine Agree.bind
      ((agree_ask (hc mode rfl) given row).mono (fun _ _ => id) (fun _ _ _ _ => id)
        fun e t f u hfail => ⟨hfail.1, hfail.2.1, hfail.2.2.2.1⟩) fun x y => ?_
    rintro t u ⟨rfl, htu⟩
    exact .inl ⟨_, t, _, u, rfl, rfl, rfl, htu.1, htu.2.2.1⟩
  | evaluate mode inputs =>
    have hanswers : Agree (Beside s fun a b => Used h s a ∧ b = m)
        (queryPlan mode >>= fun plan => planAnswers plan inputs >>= fun x => pure (Answer.rows x))
        (queryPlan mode >>= fun plan => planAnswers plan inputs >>= fun x => pure (Answer.rows x))
        (fun x t y u => x = y ∧ Beside s (Beyond h s) t u)
        (FailsAlike s Error.Alike (Beyond h s)) :=
      agree_question (hc mode rfl) fun q q' _ houtline =>
        (twins_planAnswers houtline inputs).bind_pure
    exact hanswers.mono (fun _ _ => id) (fun x t y u hx => ⟨hx.1, hx.2.1, hx.2.2.2.1⟩)
      fun e t f u hfail => ⟨hfail.1, hfail.2.1, hfail.2.2.2.1⟩

theorem New.configure (h : New modes m) (c : Command α) : New modes (c.configure m) := by
  obtain ⟨db, symbols, hdb, huntyped⟩ := h.database
  have hschema := schema_configure m c
  rw [hdb] at hschema
  obtain ⟨db', hdb', hsame⟩ := Option.map_eq_some_iff.1 hschema
  refine ⟨⟨db', symbols, hdb', hsame.trans huntyped⟩, ?_, ?_, h.apart, ?_⟩
  · cases c <;> exact h.fresh
  · cases c with
    | normalization n known => exact known
    | _ => exact h.known
  · cases c <;> exact h.calls

/-- The state after some commands, whether they fail or not. -/
def after (t : World α × Model α) (cs : List (Command α)) : World α × Model α :=
  cs.foldl (fun t c => (c.run t).2) t

def configured (m : Model α) (cs : List (Command α)) : Model α := cs.foldl Command.configure m

/-- One command keeps a model like a new one that was set up the same way. -/
theorem used_run (hc : ∀ mode, c.mode? = some mode → modes mode) {t : World α × Model α}
    (ht : t.1.settings = s ∧ Used h s t.2) :
    (c.run t).2.1.settings = s ∧ Used (h.configure c) s (c.run t).2.2 := by
  rcases agree_perform hc (h.configure c) t (t.1, m) ⟨ht.1, ht.1, ht.2, rfl⟩ with
    ⟨x, t', _, _, hx, -, -, hused⟩ | ⟨e, t', _, _, he, -, -, hused⟩
  · rw [Command.run, hx]
    exact hused
  · rw [Command.run, he]
    exact hused

/-- Commands keep a model like a new one that was set up the same way. -/
theorem used_after (hcs : ∀ c ∈ cs, ∀ mode, c.mode? = some mode → modes mode) :
    ∀ {m : Model α} (h : New modes m) {t : World α × Model α}, t.1.settings = s ∧ Used h s t.2 →
      ∃ h' : New modes (configured m cs), (after t cs).1.settings = s ∧ Used h' s (after t cs).2 := by
  induction cs with
  | nil => exact fun h _ ht => ⟨h, ht⟩
  | cons c cs ih =>
    intro m h t ht
    exact ih (fun c' hc' => hcs c' (mem_cons_of_mem c hc')) (h.configure c)
      (used_run (hcs c mem_cons_self) ht)

end

/-- Over a database without types, whatever a session did before, a command gives what it gives on a
new model with the same rules, depth, normalization and parameters. Only the type in the refusal of
an unknown constant may differ. -/
theorem run_after_alike [Scalar α] {m : Model α} {db : Database α} {symbols : Symbols}
    (hdb : m.database = some db) (huntyped : db.schema = .untyped symbols)
    (hfresh : m.program.plans = {}) (hknown : m.program.normalization.IsKnown)
    (cs : List (Command α)) (c : Command α)
    (hapart : ∀ a b, InPlay m.program (c :: cs) a → InPlay m.program (c :: cs) b → a.key = b.key →
      a = b) {w w' : World α} (hsettings : w'.settings = w.settings) :
    OutcomesAlike (c.run (after (w, m) cs)).1 (c.run (w', configured m cs)).1 := by
  have h : New (InPlay m.program (c :: cs)) m := by
    refine ⟨⟨db, symbols, hdb, huntyped⟩, hfresh, hknown, hapart, ?_⟩
    exact fun r hr g hg mode hused hdefines => .inr ⟨r, hr, g, hg, hused, hdefines⟩
  have hasked (c' : Command α) (hc' : c' ∈ c :: cs) (mode : Mode) (hmode : c'.mode? = some mode) :
      InPlay m.program (c :: cs) mode := .inl ⟨c', hc', hmode⟩
  have hstart : Used h w.settings m := ⟨rfl, Origin.coherent_program⟩
  obtain ⟨h', hs, hused⟩ := used_after (s := w.settings)
    (fun c' hc' => hasked c' (mem_cons_of_mem c hc')) h (t := (w, m)) ⟨rfl, hstart⟩
  rcases agree_perform (hasked c mem_cons_self) (h'.configure c) (after (w, m) cs)
    (w', configured m cs) ⟨hs, hsettings, hused, rfl⟩ with
    ⟨x, t', _, _, hx, hy, rfl, -⟩ | ⟨e, t', f, _, he, hf, halike, -⟩
  · rw [Command.run, Command.run, hx, hy]
    exact .inl rfl
  · rw [Command.run, Command.run, he, hf]
    rcases halike with rfl | ⟨constant, type, type', rfl, rfl⟩
    · exact .inl rfl
    · exact .inr ⟨constant, type, type', rfl, rfl⟩

end Session

namespace Sample

open Session

/-- The recursive program over the graph, whose weights can be changed. -/
def reachable : Model ℚ where
  program := recursive
  database := some { database with
    params := [.ofPredicate ⟨"edge", 2⟩], marks := [.ofPredicate ⟨"edge", 2⟩] }

theorem isKnown_softmax : Normalization.softmax.IsKnown := fun _ h => by cases h

/-- Questions around changes of depth, normalization and edges. -/
def commands : List (Command ℚ) :=
  [.evaluate reached [⟨3, #[[(1, 1)]]⟩], .depth (.upTo 3), .evaluate reached [⟨3, #[[(1, 1)]]⟩],
    .param ⟨"edge", 2⟩ (.matrix ⟨3, #[[], [(2, 1)], [(1, 1)]]⟩),
    .normalization .softmax isKnown_softmax]

theorem isPlain_recursive : ∀ r ∈ recursive.theory.rules, ∀ g ∈ r.body, g.IsPlain := by
  intro r hr g hg
  rcases mem_recursive hr with rfl | rfl
  · obtain rfl := mem_singleton.1 hg
    constructor <;> simp [Grammar.IsPlain, isAtomChar]
  · rcases mem_pair.1 hg with rfl | rfl <;> constructor <;> simp [Grammar.IsPlain, isAtomChar]

theorem mode?_commands {c : Command ℚ} (hc : c ∈ commands) (hmode : c.mode? = some mode) :
    mode = reached := by
  simp only [commands, mem_cons, not_mem_nil, or_false] at hc
  rcases hc with rfl | rfl | rfl | rfl | rfl
  · exact (Option.some.inj hmode).symm
  · cases hmode
  · exact (Option.some.inj hmode).symm
  · cases hmode
  · cases hmode

end Sample

open Sample Session in
/-- After questions and changes, what is reached is what a new model says. -/
theorem run_after_alike_reached :
    OutcomesAlike
      ((Command.evaluate reached [⟨3, #[[(2, 1)]]⟩]).run (after (world, reachable) commands)).1
      ((Command.evaluate reached [⟨3, #[[(2, 1)]]⟩]).run (world, configured reachable commands)).1 := by
  refine run_after_alike rfl rfl rfl (fun _ h => by cases h) commands _
    (inPlay_apart isPlain_recursive fun c hc mode hmode => ?_) rfl
  obtain rfl : mode = reached := by
    rcases mem_cons.1 hc with rfl | hc
    · exact (Option.some.inj hmode).symm
    · exact mode?_commands hc hmode
  constructor <;> simp [reached, Grammar.IsPlain, isAtomChar]

end BeliefLogic
