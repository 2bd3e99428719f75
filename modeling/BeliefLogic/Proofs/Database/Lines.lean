import BeliefLogic.Proofs.Schema
import BeliefLogic.Database.Storage

/-!
# What lines leave in a database

What a line leaves in a database is one of four things, from which all of loading is proved.
-/

namespace BeliefLogic

open Outcome Run List

/-- A fact of one or two arguments, with its weight. -/
structure Fact (α : Type) where
  functor : String
  first : String
  second : Option String
  weight : α

variable {α : Type} {line : String} {lines : List String} {w : World α} {db : Database α} {f : Fact α}
  {s s' : Schema} {file : String} {k : ℕ} {x : Unit} {r : World α × Database α} {i j : ℕ}

namespace Fact

def predicate (f : Fact α) : Predicate := ⟨f.functor, if f.second.isSome then 2 else 1⟩

def args (f : Fact α) : List String := f.first :: f.second.toList

theorem predicate_arity (f : Fact α) : f.predicate.arity = 2 ∨ f.predicate.arity = 1 := by
  unfold predicate
  split
  · exact .inl rfl
  · exact .inr rfl

theorem length_args (f : Fact α) : (f.args.length : ℤ) = f.predicate.arity := by
  unfold args predicate
  cases f.second <;> rfl

/-- The fact of a line without types. A third field like a number is a weight, a fourth always is.
-/
def ofLine? [Scalar α] (weighted : Bool) (line : String) : Option (Fact α) :=
  if (Text.strip line).isEmpty || Text.startsWith "#" (Text.strip line) then none
  else match Text.fields '\t' (Text.strip line) with
    | [functor, a] => some ⟨functor, a, none, 1⟩
    | [functor, a, b] =>
      match FactLine.weight? b with
      | some w => some (if weighted then ⟨functor, a, none, w⟩ else ⟨functor, a, some b, 1⟩)
      | none => some ⟨functor, a, some b, 1⟩
    | [functor, a, b, written] => (FactLine.weight? written).map fun w => ⟨functor, a, some b, w⟩
    | _ => none

end Fact

namespace FactLine

def fact? : FactLine α → Option (Fact α)
  | .unary functor a w | .guessed functor a _ w => some ⟨functor, a, none, w⟩
  | .binary functor a b w => some ⟨functor, a, some b, w⟩
  | .nothing | .trainable _ | .signature _ | .illegal _ => none

/-- A comment that declares types: after `:-` it does not mark a parameter. -/
def DeclaresTypes (α : Type) (line : String) : Prop :=
  Text.startsWith "#" (Text.strip line) = true ∧ ∃ text s,
    declaration? (Text.strip line).toList = some text ∧ Signature.parse text = .ok s ∧
      (ofSignature s : FactLine α) = .signature s

/-- The fields of a line are a relation, symbols, and perhaps a weight. -/
def States (line : String) (p : Predicate) (args : List String) : Prop :=
  p.arity = args.length ∧ Text.startsWith "#" (Text.strip line) = false ∧
    ∃ rest, Text.fields '\t' (Text.strip line) = p.functor :: (args ++ rest) ∧ rest.length ≤ 1

theorem ofSignature_cases (s : Signature) :
    (∃ p, (ofSignature s : FactLine α) = .trainable p) ∨ (ofSignature s : FactLine α) = .signature s := by
  unfold ofSignature
  split
  · exact .inl ⟨_, rfl⟩
  · exact .inl ⟨_, rfl⟩
  · exact .inr rfl

variable [Scalar α] {c : Settings α} {l : FactLine α}

/-- A weight that is not written, or is not negative. -/
def IsChecked (weight : α) : Prop := weight = 1 ∨ 0 ≤ weight ∨ 0 < weight ∨ ¬ weight < 0

/-- A line says types exactly if it declares them, and else a fact that it states. -/
structure Says (c : Settings α) (s : Schema) (line : String) (l : FactLine α) : Prop where
  signature : (∃ g, l = .signature g) ↔ DeclaresTypes α line
  untyped : s.isTypeless = true → l.fact? = Fact.ofLine? c.weightedTuples line
  states : ∀ f, l.fact? = some f → States line f.predicate f.args
  checked : ∀ f, l.fact? = some f → IsChecked f.weight ∨ s.isTypeless = true ∧
    c.weightedTuples = true ∧ ∃ b, Text.fields '\t' (Text.strip line) = [f.functor, f.first, b] ∧
      weight? b = some f.weight

/-- A line that is no comment says a fact, or is illegal. -/
theorem says_data (hline : (Text.strip line).isEmpty = false)
    (hdata : Text.startsWith "#" (Text.strip line) = false)
    (h : classify c s file k line = .ok l) : Says c s line l := by
  have hnot : ¬ DeclaresTypes α line := fun h => by simpa [hdata] using h.1
  have hsaid (f : Fact α) (hl : l.fact? = some f)
      (hf : s.isTypeless = true → Fact.ofLine? c.weightedTuples line = some f) (rest : List String)
      (hfields : Text.fields '\t' (Text.strip line) = f.functor :: (f.args ++ rest))
      (hrest : rest.length ≤ 1) (hchecked : IsChecked f.weight ∨ s.isTypeless = true ∧ c.weightedTuples = true ∧
        ∃ b, Text.fields '\t' (Text.strip line) = [f.functor, f.first, b] ∧
          weight? b = some f.weight) : Says c s line l := by
    refine ⟨iff_of_false ?_ hnot, fun hs => hl.trans (hf hs).symm, fun g hg => ?_, fun g hg => ?_⟩
    · rintro ⟨g, rfl⟩
      cases hl
    · exact Option.mem_unique hl hg ▸ ⟨f.length_args.symm, hdata, rest, hfields, hrest⟩
    · exact Option.mem_unique hl hg ▸ hchecked
  have hfact : Fact.ofLine? (α := α) c.weightedTuples line = Fact.ofLine? c.weightedTuples line := rfl
  conv_rhs at hfact => rw [Fact.ofLine?, hline, hdata]
  simp only [classify, hline, hdata, Bool.false_eq_true, if_false, Bool.or_self] at h hfact
  split at h
  · next functor a b written hfields =>
    cases hw : (weight? written : Option α) with
    | none => simp [hw] at h
    | some w =>
      simp only [hw] at h
      split_ifs at h with hneg
      obtain rfl := Except.ok.inj h
      exact hsaid ⟨functor, a, some b, w⟩ rfl (fun _ => by simp [hfact, hfields, hw])
        [written] hfields le_rfl (.inl (.inr (.inr (.inr hneg))))
  · next functor a hfields =>
    obtain rfl := Except.ok.inj h
    exact hsaid ⟨functor, a, none, 1⟩ rfl (fun _ => by simp [hfact, hfields])
      [] hfields zero_le_one (.inl (.inl rfl))
  · next functor a b hfields =>
    have hbinary (hl : l = .binary functor a b 1) (hf : s.isTypeless = true →
        Fact.ofLine? c.weightedTuples line = some (⟨functor, a, some b, 1⟩ : Fact α)) :
        Says c s line l :=
      hsaid ⟨functor, a, some b, 1⟩ (hl ▸ rfl) hf [] hfields zero_le_one (.inl (.inl rfl))
    cases htypeless : s.isTypeless with
    | true =>
      simp only [htypeless, if_true] at h
      cases hw : (weight? b : Option α) with
      | none =>
        simp only [hw] at h
        exact hbinary (Except.ok.inj h).symm fun _ => by simp [hfact, hfields, hw]
      | some w =>
        simp only [hw] at h
        split_ifs at h with hweighted
        · obtain rfl := Except.ok.inj h
          exact hsaid ⟨functor, a, none, w⟩ rfl (fun _ => by rw [hfact]; simp [hfields, hw, hweighted])
            [b] hfields le_rfl (.inr ⟨htypeless, hweighted, b, hfields, hw⟩)
        · exact hbinary (Except.ok.inj h).symm fun _ => by rw [hfact]; simp [hfields, hw, hweighted]
    | false =>
      have hno {P : Prop} (hs : s.isTypeless = true) : P := absurd (htypeless.symm.trans hs) (by simp)
      simp only [htypeless, Bool.false_eq_true, if_false, ofTypedTriple] at h
      split_ifs at h
      · exact hbinary (Except.ok.inj h).symm hno
      · split at h
        · next w _ =>
          split_ifs at h with hw
          obtain rfl := Except.ok.inj h
          exact hsaid ⟨functor, a, none, w⟩ rfl hno [b] hfields le_rfl (.inl (.inr (.inl hw)))
        · cases h
      · split at h
        · next w _ =>
          split_ifs at h with hw
          · obtain rfl := Except.ok.inj h
            exact hsaid ⟨functor, a, none, w⟩ rfl hno [b] hfields le_rfl (.inl (.inr (.inr (.inl hw))))
          · exact hbinary (Except.ok.inj h).symm hno
        · exact hbinary (Except.ok.inj h).symm hno
  · next h4 h2 h3 =>
    obtain rfl := Except.ok.inj h
    refine ⟨iff_of_false (by simp) hnot, fun _ => ?_, by simp [fact?], by simp [fact?]⟩
    rw [hfact]
    split
    · next functor a hfields => exact absurd hfields (h2 functor a)
    · next functor a b hfields => exact absurd hfields (h3 functor a b)
    · next functor a b written hfields => exact absurd hfields (h4 functor a b written)
    · rfl

theorem classify_ok (h : classify c s file k line = .ok l) : Says c s line l := by
  have hnone (hl : l.fact? = none) (hf : Fact.ofLine? (α := α) c.weightedTuples line = none)
      (hg : (∃ g, l = .signature g) ↔ DeclaresTypes α line) : Says c s line l :=
    ⟨hg, fun _ => hl.trans hf.symm, by simp [hl], by simp [hl]⟩
  cases hline : (Text.strip line).isEmpty with
  | true =>
    simp only [classify, hline, if_true] at h
    obtain rfl := Except.ok.inj h
    refine hnone rfl (by simp [Fact.ofLine?, hline]) ⟨by simp, ?_⟩
    rintro ⟨-, text, g, htext, -⟩
    rw [String.isEmpty_iff.1 hline] at htext
    cases htext
  | false =>
    cases hdata : Text.startsWith "#" (Text.strip line) with
    | false => exact says_data hline hdata h
    | true =>
      have hf : Fact.ofLine? (α := α) c.weightedTuples line = none := by simp [Fact.ofLine?, hdata]
      simp only [classify, hline, hdata, Bool.false_eq_true, if_false, if_true] at h
      split at h
      · next hundeclared =>
        obtain rfl := Except.ok.inj h
        refine hnone rfl hf ⟨by simp, ?_⟩
        rintro ⟨-, text, g, htext, -⟩
        cases hundeclared.symm.trans htext
      · next text htext =>
        obtain ⟨g, hg, h⟩ := then_ok.1 h
        obtain rfl := except_pure_ok.1 h
        rcases ofSignature_cases g with ⟨p, hp⟩ | hp
        · refine hnone (by rw [hp]; rfl) hf ⟨by simp [hp], ?_⟩
          rintro ⟨-, text', g', htext', hg', hp'⟩
          obtain rfl := Option.mem_unique htext htext'
          obtain rfl := ok_unique hg hg'
          cases hp.symm.trans hp'
        · exact hnone (by rw [hp]; rfl) hf ⟨fun _ => ⟨hdata, text, g, htext, hg, hp⟩,
            fun _ => ⟨g, hp⟩⟩

end FactLine

/-- The symbols of a fact are numbered by their types, which gives its place. -/
inductive Schema.Enters (s : Schema) : Fact α → ℕ → ℕ → Schema → Prop
  | one {functor a type : String} {w : α} {j : ℕ} {s' : Schema}
    (hdomain : s.domain ⟨functor, 1⟩ = some type) (h : s.intern (some type) a = .ok (j, s')) :
    Enters s ⟨functor, a, none, w⟩ 0 j s'
  | two {functor a b type type' : String} {w : α} {i j : ℕ} {s1 s' : Schema}
    (hdomain : s.domain ⟨functor, 2⟩ = some type) (hrange : s.range ⟨functor, 2⟩ = some type')
    (h : s.intern (some type) a = .ok (i, s1)) (h' : s1.intern (some type') b = .ok (j, s')) :
    Enters s ⟨functor, a, some b, w⟩ i j s'

theorem Schema.Enters.keeps {P : Schema → Prop} (h : s.Enters f i j s')
    (hP : ∀ {s s' type a n}, s.intern (some type) a = .ok (n, s') → P s → P s') (hs : P s) : P s' := by
  cases h with
  | one _ h => exact hP h hs
  | two _ _ h h' => exact hP h' (hP h hs)

/-- Types are missing for an argument of a fact. -/
def Schema.Lacks (s : Schema) (f : Fact α) : Prop :=
  s.domain f.predicate = none ∨ f.second.isSome ∧ s.range f.predicate = none

/-- A fact is kept with its place until its matrix is made. -/
def Database.keepAt (db : Database α) (f : Fact α) (i j : ℕ) : Database α :=
  { db with pending := db.pending.change f.predicate {} fun q =>
    { weights := f.weight :: q.weights, rows := i :: q.rows, columns := j :: q.columns } }

theorem Database.markParam_eq [Scalar α] (db : Database α) (p : Predicate) :
    ∃ params marks, db.markParam p = { db with params, marks } := by
  unfold markParam mark
  split
  · exact ⟨_, _, rfl⟩
  · exact ⟨_, _, rfl⟩

/-- What is taken from a line: nothing, a mark, types, or a fact. -/
inductive Database.Takes [Scalar α] (c : Settings α) (db : Database α) :
    FactLine α → Database α → Prop
  | nothing {l : FactLine α} (hfact : ∀ f, l.fact? = some f → db.schema.Lacks f)
    (htypes : ∀ g, l = .signature g → c.ignoreTypes = true) : Takes c db l db
  | mark (p : Predicate) : Takes c db (.trainable p) (db.markParam p)
  /-- A schema without types gives way to a new one. -/
  | types {g : Signature} {t t' : Typing} {v : World α} (hignore : c.ignoreTypes = false)
    (hstart : db.schema = .typed t ∨ db.schema.isTypeless = true ∧ t = {})
    (h : declareTypes g.goal.functor g.goal.args (v, .typed t) = .ok () (v, .typed t')) :
    Takes c db (.signature g) { db with schema := .typed t' }
  | fact {l : FactLine α} {f : Fact α} {i j : ℕ} {s : Schema} (hfact : l.fact? = some f)
    (hnew : db.relations.contains f.predicate = false) (hplace : db.schema.Enters f i j s) :
    Takes c db l ({ db with schema := s }.keepAt f i j)

/-- What a database takes from lines, one after the other. -/
inductive Database.Loads [Scalar α] (c : Settings α) (db : Database α) :
    List String → Database α → Prop
  | nil : Loads c db [] db
  | concat {lines : List String} {line : String} {l : FactLine α} {d d' : Database α}
    (h : Loads c db lines d) (hsaid : FactLine.Says c d.schema line l) (htakes : d.Takes c l d') :
    Loads c db (lines ++ [line]) d'

theorem Database.Loads.trans [Scalar α] {c : Settings α} {d d' : Database α} {more : List String}
    (h : db.Loads c lines d) (h' : d.Loads c more d') : db.Loads c (lines ++ more) d' := by
  induction h' with
  | nil => simpa using h
  | concat _ hsaid htakes ih =>
    rw [← append_assoc]
    exact ih.concat hsaid htakes

namespace Run

/-- Nothing changes in a world but what is printed and logged. -/
def Calm (w w' : World α) : Prop := w'.settings = w.settings ∧ w'.files = w.files

theorem Calm.trans {w w' w'' : World α} (h : Calm w w') (h' : Calm w' w'') : Calm w w'' :=
  ⟨h'.1.trans h.1, h'.2.trans h.2⟩

theorem internEntity_ok {type a : String} {n : ℕ} (h : internEntity type a (w, db) = .ok n r) :
    ∃ s, db.schema.intern (some type) a = .ok (n, s) ∧ r = (w, { db with schema := s }) := by
  simp only [internEntity, bind_ok, lift_ok, update_ok, state_bind] at h
  obtain ⟨⟨_, s⟩, _, ⟨hs, rfl⟩, _, _, rfl, rfl, rfl⟩ := h
  exact ⟨s, hs, rfl⟩

variable [Scalar α] {c : Settings α} {l : FactLine α}

theorem keepFact_ok (hl : l.fact? = some f)
    (h : keepFact file k f.predicate f.first f.second f.weight (w, db) = .ok x r) :
    Calm w r.1 ∧ db.Takes c l r.2 := by
  obtain ⟨functor, a, second, weight⟩ := f
  simp only [keepFact, state_bind] at h
  split at h
  · simp at h
  next hnew =>
  have hnew := Bool.eq_false_iff.2 hnew
  have hreport {text : String} (hlacks : db.schema.Lacks ⟨functor, a, second, weight⟩)
      (hr : complain text (w, db) = .ok x r) : Calm w r.1 ∧ db.Takes c l r.2 := by
    simp only [complain, note, modify_ok] at hr
    obtain rfl := hr
    refine ⟨⟨rfl, rfl⟩, .nothing (fun g hg => Option.mem_unique hl hg ▸ hlacks) ?_⟩
    rintro g rfl
    cases hl
  generalize hdomain : db.schema.domain _ = domain at h
  generalize hrange : db.schema.range _ = range at h
  cases domain with
  | none => cases second <;> exact hreport (.inl hdomain) h
  | some type =>
    cases second with
    | none =>
      simp only [bind_ok, changePending, update_ok] at h
      obtain ⟨n, u, hn, rfl⟩ := h
      obtain ⟨s, hs, rfl⟩ := internEntity_ok hn
      exact ⟨⟨rfl, rfl⟩, .fact hl hnew (.one hdomain hs)⟩
    | some b =>
      cases range with
      | none => exact hreport (.inr ⟨rfl, hrange⟩) h
      | some type' =>
        simp only [bind_ok, changePending, update_ok] at h
        obtain ⟨n, u, hn, m, v, hm, rfl⟩ := h
        obtain ⟨s, hs, rfl⟩ := internEntity_ok hn
        obtain ⟨s', hs', rfl⟩ := internEntity_ok hm
        exact ⟨⟨rfl, rfl⟩, .fact hl hnew (.two hdomain hrange hs hs')⟩

theorem declareSignature_ok {g : Signature} (h : declareSignature file k g (w, db) = .ok x r) :
    Calm w r.1 ∧ db.Takes w.settings (.signature g) r.2 := by
  simp only [declareSignature, settings_bind] at h
  cases hignore : w.settings.ignoreTypes with
  | true =>
    simp only [hignore] at h
    obtain ⟨-, rfl⟩ := h
    exact ⟨⟨rfl, rfl⟩, .nothing (by simp [FactLine.fact?]) fun _ _ => hignore⟩
  | false =>
    simp only [hignore, Bool.not_false, if_true, state_bind] at h
    have hdeclare {v : World α} {d : Database α} {t : Typing} (hv : Calm w v)
        (hd : d = { db with schema := .typed t })
        (hstart : db.schema = .typed t ∨ db.schema.isTypeless = true ∧ t = {})
        (h : onSchema (declareTypes g.goal.functor g.goal.args) (v, d) = .ok x r) :
        Calm w r.1 ∧ db.Takes w.settings (.signature g) r.2 := by
      subst hd
      obtain ⟨u, hu, rfl⟩ := focus_ok.1 h
      obtain ⟨_, t', -, rfl, -⟩ := declareTypes_ok (fun _ _ _ _ _ _ _ => trivial) hu
      exact ⟨hv, .types hignore hstart hu⟩
    cases hs : db.schema with
    | untyped t =>
      have hstart : db.schema = .typed {} ∨ db.schema.isTypeless = true ∧ ({} : Typing) = {} :=
        .inr ⟨by rw [hs]; rfl, rfl⟩
      simp only [hs, Schema.isTypeless, if_true] at h
      split at h
      · simp only [complain, note, bind_ok, modify_ok, update_ok] at h
        obtain ⟨_, _, rfl, _, _, rfl, h⟩ := h
        refine hdeclare ?_ ?_ hstart h <;> constructor <;> rfl
      · simp only [bind_ok, update_ok] at h
        obtain ⟨_, _, rfl, h⟩ := h
        exact hdeclare ⟨rfl, rfl⟩ rfl hstart h
    | typed t =>
      simp only [hs] at h
      exact hdeclare ⟨rfl, rfl⟩ (by rw [← hs]) (.inl hs) h

/-- A line that is read leaves what it says. -/
theorem addFactLine_ok (h : addFactLine file k line (w, db) = .ok x r) :
    Calm w r.1 ∧ ∃ l, FactLine.Says w.settings db.schema line l ∧ db.Takes w.settings l r.2 := by
  simp only [addFactLine, bind_ok, lift_ok, settings_bind, state_bind] at h
  obtain ⟨l, _, ⟨hl, rfl⟩, h⟩ := h
  suffices key : Calm w r.1 ∧ db.Takes w.settings l r.2 from
    ⟨key.1, l, FactLine.classify_ok hl, key.2⟩
  cases l with
  | nothing =>
    obtain ⟨-, rfl⟩ := pure_ok.1 h
    exact ⟨⟨rfl, rfl⟩, .nothing (by simp [FactLine.fact?]) (by simp)⟩
  | trainable p =>
    obtain rfl := update_ok.1 h
    exact ⟨⟨rfl, rfl⟩, .mark p⟩
  | signature g => exact declareSignature_ok h
  | unary functor a weight => exact keepFact_ok rfl h
  | guessed functor a written weight =>
    simp only [warn, note, bind_ok, modify_ok] at h
    obtain ⟨_, _, rfl, h⟩ := h
    have hkeep := keepFact_ok (c := w.settings)
      (l := .guessed functor a written weight) rfl h
    exact hkeep
  | binary functor a b weight => exact keepFact_ok rfl h
  | illegal text =>
    simp only [complain, note, modify_ok] at h
    obtain rfl := h
    exact ⟨⟨rfl, rfl⟩, .nothing (by simp [FactLine.fact?]) (by simp)⟩

theorem loads_of_forIn {ι : Type} {xs : List ι} (number : ι → ℕ) (text : ι → String) {x : PUnit}
    (h : (forIn xs PUnit.unit fun l _ => do
      addFactLine file (number l) (text l)
      pure (ForInStep.yield PUnit.unit) : Run α (Database α) PUnit) (w, db) = .ok x r) :
    Calm w r.1 ∧ db.Loads w.settings (xs.map text) r.2 := by
  refine forIn_ok (I := fun done t =>
    Calm w t.1 ∧ db.Loads w.settings (done.map text) t.2)
    (fun done l rest _ t y t' ht hl => ?_) ⟨⟨rfl, rfl⟩, .nil⟩ h
  obtain ⟨hcalm, hloads⟩ := ht
  obtain ⟨hcalm', l', hsaid, htakes⟩ := addFactLine_ok hl
  rw [hcalm.1] at hsaid htakes
  rw [map_append]
  exact ⟨hcalm.trans hcalm', hloads.concat hsaid htakes⟩

end Run

/-- The weighted places that are kept for a relation, first to last. -/
def Pending.places (q : Pending α) : List (ℕ × ℕ × α) :=
  q.rows.reverse.zip (q.columns.reverse.zip q.weights.reverse)

/-- What is pending for a relation with places in its matrix. -/
def Pending.ofPlaces (es : List (ℕ × ℕ × α)) : Pending α where
  weights := (es.map (·.2.2)).reverse
  rows := (es.map (·.1)).reverse
  columns := (es.map (·.2.1)).reverse

@[simp] theorem Pending.places_ofPlaces (es : List (ℕ × ℕ × α)) : (ofPlaces es).places = es := by
  simp [places, ofPlaces, zip_map']

namespace Run

variable [Scalar α]

/-- Some of the kept relations have their matrices. -/
theorem completeFacts_ok {I : List (Predicate × Pending α) → Database α → Prop}
    (hstep : ∀ done e rest, db.pending.entries = done ++ e :: rest → ∀ d shape m, I done d →
      relationShape db.schema e.1 = .ok shape →
      Matrix.ofWeights shape.1 shape.2 e.2.places = .ok m → I (done ++ [e]) (d.putRelation e.1 m))
    (hinit : I [] db) (h : completeFacts (w, db) = .ok x r) :
    ∃ d, I db.pending.entries d ∧ d.schema = db.schema ∧ r = (w, { d with pending := {} }) := by
  simp only [completeFacts, dropPending, bind_ok, update_ok, state_bind] at h
  obtain ⟨_, ⟨v, d⟩, hloop, rfl⟩ := h
  obtain ⟨hI, hd, rfl⟩ : I db.pending.entries d ∧ d.schema = db.schema ∧ v = w := by
    refine forIn_ok
      (I := fun done t => I done t.2 ∧ t.2.schema = db.schema ∧ t.1 = w) ?_ ⟨hinit, rfl, rfl⟩ hloop
    rintro done e rest heq ⟨w', d⟩ _ _ ⟨hd, hschema, rfl⟩ he
    simp only [completeRelation, bind_ok, lift_ok, update_ok, state_bind] at he
    obtain ⟨shape, _, ⟨hshape, rfl⟩, m, _, ⟨hm, rfl⟩, rfl⟩ := he
    exact ⟨hstep done e rest heq d shape m hd (hschema ▸ hshape) hm, hschema, rfl⟩
  exact ⟨d, hI, hd, rfl⟩

/-- Kept relations have the matrices of what was kept, in the schema's shape. -/
theorem completeFacts_relations (h : completeFacts (w, db) = .ok x r) :
    r.2.schema = db.schema ∧ ∀ p,
      p ∉ db.pending.keys ∧ r.2.relations.get? p = db.relations.get? p ∨
      ∃ q shape m, (p, q) ∈ db.pending.entries ∧ r.2.relations.get? p = some (.matrix m) ∧
        relationShape db.schema p = .ok shape ∧
        Matrix.ofWeights shape.1 shape.2 q.places = .ok m := by
  have hmade := completeFacts_ok (I := fun done d => ∀ p,
    p ∉ done.map (·.1) ∧ d.relations.get? p = db.relations.get? p ∨
    ∃ q shape m, (p, q) ∈ db.pending.entries ∧ d.relations.get? p = some (.matrix m) ∧
      relationShape db.schema p = .ok shape ∧ Matrix.ofWeights shape.1 shape.2 q.places = .ok m)
    (fun done e rest heq d shape m hd hshape hm p => ?_) (by simp) h
  · obtain ⟨d, hd, hschema, rfl⟩ := hmade
    exact ⟨hschema, hd⟩
  · by_cases hep : e.1 = p
    · subst hep
      exact .inr ⟨e.2, shape, m, by rw [heq]; simp, by simp [Database.putRelation], hshape, hm⟩
    · have hget : (d.putRelation e.1 m).relations.get? p = d.relations.get? p := by
        simp [Database.putRelation, hep]
      simpa [hget, Ne.symm hep] using hd p

theorem startFacts_ok (h : startFacts lines (w, db) = .ok x r) :
    ({ db with pending := {} } : Database α).Loads w.settings lines r.2 := by
  simp only [startFacts, dropPending, bind_ok, update_ok] at h
  obtain ⟨_, _, rfl, _, _, hloop, -, rfl⟩ := h
  simpa using (loads_of_forIn (fun _ => 0) id hloop).2

theorem addFacts_ok (h : addFacts lines (w, db) = .ok x r) :
    ∃ v d, ({ db with pending := {} } : Database α).Loads w.settings lines d ∧
      completeFacts (v, d) = .ok x r := by
  obtain ⟨_, ⟨v, d⟩, hread, h⟩ := bind_ok.1 h
  exact ⟨v, d, startFacts_ok hread, h⟩

theorem keepFactFile_ok {path : String} (h : keepFactFile path (w, db) = .ok x r) :
    ∃ lines, w.files.lines path = .ok lines ∧ Calm w r.1 ∧ db.Loads w.settings lines r.2 := by
  simp only [keepFactFile, keepFacts, fileLines, bind_ok, lift_ok] at h
  obtain ⟨lines, _, ⟨_, _, ⟨_, _, rfl⟩, hread, rfl⟩, _, _, hloop, -, rfl⟩ := h
  have hlines := loads_of_forIn (fun l : String × ℕ => l.2 + 1) Prod.fst hloop
  rw [zipIdx_map_fst] at hlines
  exact ⟨lines, hread, hlines⟩

/-- The lines of files are read as one list. -/
theorem addFactFiles_ok {paths : String} (h : addFactFiles paths (w, db) = .ok x r) :
    ∃ texts v d, (Text.fields ':' paths).mapM w.files.lines = .ok texts ∧ Calm w v ∧
      db.Loads w.settings texts.flatten d ∧ completeFacts (v, d) = .ok x r := by
  simp only [addFactFiles, bind_ok] at h
  obtain ⟨_, ⟨v, d⟩, hloop, h⟩ := h
  obtain ⟨texts, htexts, hv, hd⟩ : ∃ texts, (Text.fields ':' paths).mapM w.files.lines = .ok texts ∧
      Calm w v ∧ db.Loads w.settings texts.flatten d := by
    refine forIn_ok (I := fun done t => ∃ texts,
      done.mapM w.files.lines = .ok texts ∧ Calm w t.1 ∧ db.Loads w.settings texts.flatten t.2)
      (fun done path rest _ t y t' ht hpath => ?_) ⟨[], rfl, ⟨rfl, rfl⟩, .nil⟩ hloop
    obtain ⟨texts, htexts, hcalm, hloads⟩ := ht
    obtain ⟨lines, hlines, hcalm', hloads'⟩ := keepFactFile_ok hpath
    rw [hcalm.2] at hlines
    rw [hcalm.1] at hloads'
    refine ⟨texts ++ [lines], ?_, hcalm.trans hcalm', by simpa using hloads.trans hloads'⟩
    rw [mapM_append, htexts, mapM_cons, hlines]
    rfl
  exact ⟨texts, v, d, htexts, hv, hd, h⟩

end Run

end BeliefLogic
