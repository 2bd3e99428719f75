import BeliefLogic.Proofs.Dictionary
import BeliefLogic.Proofs.Outcome
import BeliefLogic.Proofs.Symbols
import BeliefLogic.Proofs.Text

/-!
# Saved schemas

A schema that facts have filled is read back from its lines, up to the order of its types.
-/

namespace BeliefLogic

open Outcome List Dictionary Text Symbols

variable {all xs : List String} {d : Dictionary Predicate String} {a b c : Typing × Place}
variable {t' : Typing} {symbol functor type : String} {types : List String}

namespace Symbols

/-- Names listed once are interned in step, but for known ones. -/
theorem intern_next {t : Symbols} {done rest : List String} {x : String}
    (hall : all = done ++ x :: rest) (hnodup : all.Nodup) (hdone : done <+: t.toList)
    (ht : t.toList <+: all) :
    (t.intern x).1 = done.length + 1 ∧ done ++ [x] <+: (t.insert x).toList ∧
      (t.insert x).toList <+: all := by
  obtain ⟨more, hmore⟩ := hdone
  cases more with
  | nil =>
    rw [append_nil] at hmore
    have hx : x ∉ t.toList := by
      rw [hall, nodup_append] at hnodup
      exact fun hx => hnodup.2.2 x (hmore ▸ hx) x mem_cons_self rfl
    have hsize : t.size = done.length := by rw [hmore, toList, Array.length_toList, size]
    rw [toList_insert, if_neg hx, ← hmore]
    refine ⟨?_, prefix_rfl, ⟨rest, by simp [hall]⟩⟩
    rw [intern, id?_eq_none.2 hx, hsize]
  | cons y more =>
    have hy : y = x := by
      rw [hall, ← hmore, prefix_append_right_inj, cons_prefix_cons] at ht
      exact ht.1
    subst hy
    have hid : t.id? y = some (done.length + 1) := by
      rw [← toList_getElem?, ← hmore]
      simp
    have hmem : y ∈ t.toList := by simp [← hmore]
    rw [toList_insert, if_pos hmem]
    exact ⟨by rw [intern, hid], ⟨more, by simp [← hmore]⟩, ht⟩

end Symbols

/-- A table starts with the null entity and the unknown entity. -/
def Symbols.IsStarted (t : Symbols) : Prop := [Symbols.null, Symbols.unknown] <+: t.toList

theorem Symbols.isStarted_entities : Symbols.entities.IsStarted := by
  rw [IsStarted, toList_entities]

theorem Symbols.IsStarted.insert {t : Symbols} (h : t.IsStarted) (s : String) :
    (t.insert s).IsStarted := by
  rw [IsStarted, toList_insert]
  split
  · exact h
  · exact h.trans (prefix_append t.toList [s])

/-- What holds of every typed schema that was read. -/
structure Typing.Sound (arities : ℤ → Prop) (t : Typing) : Prop where
  keys : ∀ i d, t.position i = .ok d → d.keys.Nodup
  tables : t.tables.keys.Nodup
  arity : ∀ i d, t.position i = .ok d → ∀ p ∈ d.keys, arities p.arity
  opened : ∀ i d, t.position i = .ok d → ∀ e ∈ d.entries, t.tables.contains e.2 = true
  started : ∀ type s, t.tables.get? type = some s → s.IsStarted

/-- A number of arguments that relations have. -/
def IsSmallArity (n : ℤ) : Prop := 0 ≤ n ∧ n ≤ 2

theorem isSmallArity_zero : IsSmallArity 0 := ⟨by decide, by decide⟩

theorem isSmallArity_one : IsSmallArity 1 := ⟨by decide, by decide⟩

theorem isSmallArity_two : IsSmallArity 2 := ⟨by decide, by decide⟩

/-- What holds of every schema that was read. -/
def Schema.Sound : Schema → Prop
  | .untyped s => s.IsStarted
  | .typed t => t.Sound IsSmallArity

namespace Typing

variable {arities arities' : ℤ → Prop} {t : Typing} {i : ℤ} {p : Predicate}

theorem position_ok (h : t.position i = .ok d) : i = 0 ∧ t.first = d ∨ i = 1 ∧ t.second = d := by
  unfold position at h
  split at h
  · exact .inl ⟨rfl, Except.ok.inj h⟩
  · exact .inr ⟨rfl, Except.ok.inj h⟩
  · cases h

theorem entries_empty (h : ({} : Typing).position i = .ok d) : d.entries = [] := by
  obtain ⟨-, rfl⟩ | ⟨-, rfl⟩ := position_ok h <;> rfl

theorem sound_empty : ({} : Typing).Sound arities := by
  refine ⟨fun i d hd => ?_, nodup_nil, fun i d hd p hp => ?_, fun i d hd e he => ?_,
    fun type s hs => by cases hs⟩
  · simp [Dictionary.keys, entries_empty hd]
  · simp [Dictionary.keys, entries_empty hd] at hp
  · simp [entries_empty hd] at he

theorem Sound.imp (h : t.Sound arities) (himp : ∀ n, arities n → arities' n) : t.Sound arities' :=
  ⟨h.keys, h.tables, fun i d hd p hp => himp _ (h.arity i d hd p hp), h.opened, h.started⟩

theorem Sound.putTable (h : t.Sound arities) {s : Symbols} (hs : s.IsStarted) :
    Sound arities { t with tables := t.tables.put type s } := by
  refine ⟨h.keys, nodup_keys_put h.tables type s, h.arity, ?_, ?_⟩
  · intro i d hd e he
    rw [contains_put, h.opened i d hd e he, Bool.or_true]
  · intro type' s' hs'
    rw [get?_put] at hs'
    split at hs'
    · exact Option.some.inj hs' ▸ hs
    · exact h.started type' s' hs'

theorem contains_ensureType (t : Typing) (type type' : String) :
    (t.ensureType type).tables.contains type' = (type == type' || t.tables.contains type') := by
  unfold Typing.ensureType
  split
  · next hopen =>
    by_cases htype : type = type'
    · simp [← htype, hopen]
    · simp [htype]
  · exact contains_put t.tables type type' .entities

/-- The schema after the type of an argument was declared. -/
def declared (t : Typing) (p : Predicate) (i : ℤ) (type : String) : Typing :=
  (if i = 0 then { t with first := t.first.put p type }
    else { t with second := t.second.put p type }).ensureType type

/-- An accepted declaration agrees with what is declared. -/
theorem declareArg_ok (h : t.declareArg p i type = .ok t') : ∃ d, t.position i = .ok d ∧
    (∀ known, d.get? p = some known → known = type) ∧ t' = t.declared p i type := by
  simp only [declareArg, then_ok] at h
  obtain ⟨d, hd, h⟩ := h
  refine ⟨d, hd, ?_⟩
  split at h
  · next hget =>
    split at h
    · cases h
    · next hsame =>
      exact ⟨fun _ h => (Option.mem_unique h hget).trans (not_not.1 hsame),
        (except_pure_ok.1 h).symm⟩
  · next hget => exact ⟨by simp [hget], (except_pure_ok.1 h).symm⟩

theorem declareArg_of_notMem (hd : t.position i = .ok d) (hp : d.get? p = none) (type : String) :
    t.declareArg p i type = .ok (t.declared p i type) := by
  rw [declareArg, hd]
  refine then_ok.2 ⟨d, rfl, ?_⟩
  rw [hp]
  rfl

/-- The types of the arguments after a declaration. -/
theorem position_declared (hd : t.position i = .ok d) (p : Predicate) (type : String) :
    (t.declared p i type).position i = .ok (d.put p type) ∧
      ∀ j ≠ i, (t.declared p i type).position j = t.position j := by
  have hkept (u : Typing) : (u.ensureType type).first = u.first ∧
      (u.ensureType type).second = u.second := by
    unfold Typing.ensureType
    split <;> exact ⟨rfl, rfl⟩
  obtain ⟨rfl, rfl⟩ | ⟨rfl, rfl⟩ := position_ok hd
  · refine ⟨by simp [declared, position, hkept], fun j hj => ?_⟩
    unfold position
    split <;> simp_all [declared]
  · refine ⟨by simp [declared, position, hkept], fun j hj => ?_⟩
    unfold position
    split <;> simp_all [declared]

theorem declarations_declared (t : Typing) (p : Predicate) (i : ℤ) (type : String) :
    (t.declared p i type).declarations = t.declarations := by
  unfold declared Typing.ensureType
  split <;> split <;> rfl

theorem contains_declared (t : Typing) (p : Predicate) (i : ℤ) (type type' : String) :
    (t.declared p i type).tables.contains type' = (type == type' || t.tables.contains type') := by
  unfold declared
  rw [contains_ensureType]
  split <;> rfl

theorem tables_declared (t : Typing) (p : Predicate) (i : ℤ) (type : String) :
    (t.declared p i type).tables = t.tables ∨
      t.tables.contains type = false ∧
        (t.declared p i type).tables = t.tables.put type .entities := by
  unfold declared Typing.ensureType
  split <;> split <;> simp_all

theorem position_cases (hd : t.position i = .ok d)
    (hd' : (t.declared p i type).position j = .ok d') :
    d' = d.put p type ∨ t.position j = .ok d' := by
  obtain ⟨hput, hother⟩ := position_declared hd p type
  by_cases hj : j = i
  · subst hj
    exact .inl (ok_unique hd' hput)
  · exact .inr (hother j hj ▸ hd')

theorem forall_keys_declared {P : Predicate → Prop} (hd : t.position i = .ok d)
    (h : ∀ i d, t.position i = .ok d → ∀ q ∈ d.keys, P q) (hp : P p) :
    ∀ i' d, (t.declared p i type).position i' = .ok d → ∀ q ∈ d.keys, P q := by
  intro j d' hd' q hq
  rcases position_cases hd hd' with rfl | hd'
  · rcases mem_keys_put hq with hq | rfl
    · exact h i d hd q hq
    · exact hp
  · exact h j d' hd' q hq

/-- Declaring the type of an argument keeps a schema sound. -/
theorem Sound.declareArg (h : t.Sound arities) (hp : arities p.arity)
    (ht' : t.declareArg p i type = .ok t') : t'.Sound arities := by
  obtain ⟨d, hd, -, rfl⟩ := declareArg_ok ht'
  have htables : (t.declared p i type).tables.keys.Nodup ∧
      ∀ type' s, (t.declared p i type).tables.get? type' = some s → s.IsStarted := by
    rcases tables_declared t p i type with htables | ⟨-, htables⟩
    · exact htables ▸ ⟨h.tables, h.started⟩
    · have hput : Sound arities { t with tables := t.tables.put type _ } :=
        h.putTable isStarted_entities
      exact htables ▸ ⟨hput.tables, hput.started⟩
  refine ⟨fun j d' hd' => ?_, htables.1, forall_keys_declared hd h.arity hp, fun j d' hd' e he => ?_,
    htables.2⟩
  · rcases position_cases hd hd' with rfl | hd'
    · exact nodup_keys_put (h.keys i d hd) p type
    · exact h.keys j d' hd'
  · rw [contains_declared]
    rcases position_cases hd hd' with rfl | hd'
    · rcases mem_entries_put he with he | rfl
      · rw [h.opened i d hd e he, Bool.or_true]
      · simp
    · rw [h.opened j d' hd' e he, Bool.or_true]

end Typing

/-- An entity of a type is interned in the table of the type. -/
theorem Schema.intern_typed {t : Typing} {n : ℕ} {s' : Schema}
    (h : (Schema.typed t).intern (some type) symbol = .ok (n, s')) :
    ∃ table, t.tables.get? type = some table ∧ n = (table.intern symbol).1 ∧
      s' = .typed { t with tables := t.tables.put type (table.insert symbol) } := by
  simp only [Schema.intern, then_ok] at h
  obtain ⟨table, htable, rfl, rfl⟩ := h
  rw [intern_snd]
  simp only [Schema.table] at htable
  split at htable
  · next found hfound =>
    obtain rfl := Except.ok.inj htable
    exact ⟨_, hfound, rfl, rfl⟩
  · cases htable

/-- Interning an entity keeps a schema sound. -/
theorem Schema.Sound.intern {s s' : Schema} (h : s.Sound) {type : Option String} {n : ℕ}
    (hs : s.intern type symbol = .ok (n, s')) : s'.Sound := by
  cases s with
  | untyped entities =>
    obtain ⟨-, rfl⟩ := Prod.mk.inj (Except.ok.inj hs)
    exact (intern_snd entities symbol).symm ▸ Symbols.IsStarted.insert h symbol
  | typed t =>
    cases type with
    | none => cases hs
    | some type =>
      obtain ⟨table, htable, -, rfl⟩ := intern_typed hs
      exact Typing.Sound.putTable h ((h.started type _ htable).insert symbol)

def Text.IsField (s : String) : Prop :=
  '\t' ∉ s.toList ∧ '\n' ∉ s.toList ∧ '\r' ∉ s.toList

instance (s : String) : Decidable (IsField s) :=
  inferInstanceAs (Decidable ('\t' ∉ s.toList ∧ '\n' ∉ s.toList ∧ '\r' ∉ s.toList))

/-- Names of a typed schema that can be read back. -/
structure Typing.IsWritable (t : Typing) : Prop where
  declarations : ∀ d ∈ t.declarations, IsWord d
  functors : ∀ i d, t.position i = .ok d → ∀ p ∈ d.keys, IsField p.functor
  types : ∀ type ∈ t.tables.keys, IsWord type
  entities : ∀ e ∈ t.tables.entries, ∀ x ∈ e.2.toList, IsWord x

/-- Names that can be read back. Without types, one may be empty. -/
def Schema.IsWritable : Schema → Prop
  | .untyped s => ∀ x ∈ s.toList, IsLine x
  | .typed t => t.IsWritable

/-- The same argument types, declarations and entities. -/
structure Typing.Agrees (t t' : Typing) : Prop where
  first : t'.first = t.first
  second : t'.second = t.second
  declarations : t'.declarations = t.declarations
  tables : ∀ type,
    (t'.tables.get? type).map Symbols.toList = (t.tables.get? type).map Symbols.toList

/-- Schemas with the same types, argument types, declarations and entities. -/
def Schema.Agrees : Schema → Schema → Prop
  | .untyped s, .untyped s' => s'.toList = s.toList
  | .typed t, .typed t' => t.Agrees t'
  | _, _ => False

namespace Schema

/-- The lines that list what was declared for one position. -/
def positionLines (i : ℤ) (es : List (Predicate × String)) : List String :=
  es.map fun (p, type) =>
    "\t".intercalate [integer i, p.functor, integer p.arity, type]

/-- The lines that list the entities of types. -/
def tableLines (es : List (String × Symbols)) : List String :=
  es.flatMap fun (type, symbols) => "" :: type :: symbols.toList

def typedLines (t : Typing) : List String :=
  t.declarations ++ positionLines 0 t.first.entries ++ positionLines 1 t.second.entries ++
    tableLines t.tables.entries

theorem text_typed (t : Typing) : (Schema.typed t).text = unlines (typedLines t) := by
  rw [typedLines, unlines_append, unlines_append, unlines_append, tableLines,
    unlines_flatMap]
  have hposition (i : ℤ) (d : Dictionary Predicate String) :
      unlines (positionLines i d.entries) = positionText (integer i) d := by
    rw [unlines, positionLines, map_map]
    rfl
  have htable : (fun e : String × Symbols => unlines ("" :: e.1 :: e.2.toList)) =
      fun e => "\n" ++ e.1 ++ "\n" ++ tableText e.2 := by
    funext e
    rw [← String.toList_inj]
    simp [tableText, toList_unlines, flatMap_map]
  rw [hposition, hposition]
  rw [htable]
  rfl

/-- Lines that list names once are added in step. -/
theorem addInStep_untyped {refusal : String → ℕ → ℕ → Error} (hnodup : all.Nodup)
    (hlines : ∀ x ∈ all, IsLine x) :
    ∀ {rest done : List String} {t : Symbols}, all = done ++ rest → done <+: t.toList →
      t.toList <+: all →
      ∃ t', addInStep refusal none (.untyped t) (done.length + 1) (rest.map (· ++ "\n")) =
        .ok (.untyped t') ∧ t'.toList = all := by
  intro rest
  induction rest with
  | nil =>
    intro done t hall hdone ht
    rw [append_nil] at hall
    exact ⟨t, rfl, ht.eq_of_length_le (hall ▸ hdone.length_le)⟩
  | cons x rest ih =>
    intro done t hall hdone ht
    obtain ⟨hnumber, hdone', ht'⟩ := intern_next hall hnodup hdone ht
    have hall' : all = (done ++ [x]) ++ rest := by simp [hall]
    obtain ⟨t', hrest, hlist⟩ := ih hall' hdone' ht'
    refine ⟨t', ?_, hlist⟩
    have hx : IsLine x := hlines x (by simp [hall])
    have hintern : (Schema.untyped t).intern none x =
        .ok (done.length + 1, .untyped (t.insert x)) := by
      rw [← hnumber, ← intern_snd]
      rfl
    rw [length_append] at hrest
    rw [map_cons, addInStep, hx.strip_append, hintern]
    refine then_ok.2 ⟨_, rfl, ?_⟩
    simp only [ne_eq]
    exact hrest

theorem readUntyped_toList {s : Symbols} (hs : s.IsStarted) (hlines : ∀ x ∈ s.toList, IsLine x) :
    ∃ s', readUntyped (s.toList.map (· ++ "\n")) = .ok (.untyped s') ∧ s'.toList = s.toList :=
  addInStep_untyped s.nodup_toList hlines rfl nil_prefix
    (by rw [toList_entities]; exact hs)

theorem readLines_append {ys : List String} (hxs : xs.foldlM readTypedLine a = .ok b)
    (hys : ys.foldlM readTypedLine b = .ok c) :
    (xs ++ ys).foldlM readTypedLine a = .ok c := by
  rw [foldlM_append]
  exact then_ok.2 ⟨b, hxs, hys⟩

theorem readLines_cons {x : String} (hx : readTypedLine a x = .ok b)
    (hxs : xs.foldlM readTypedLine b = .ok c) :
    (x :: xs).foldlM readTypedLine a = .ok c := by
  exact then_ok.2 ⟨b, hx, hxs⟩

theorem isEmpty_of_ne {s : String} (h : s ≠ "") : s.isEmpty = false := by
  simpa using h

theorem readDeclarations {ds : List String} (hds : ∀ d ∈ ds, IsWord d) (t : Typing) :
    (ds.map (· ++ "\n")).foldlM readTypedLine (t, .declarations) =
      .ok ({ t with declarations := t.declarations ++ ds }, .declarations) := by
  induction ds generalizing t with
  | nil => simp
  | cons d ds ih =>
    obtain ⟨⟨hline, hne, htab⟩, hds⟩ := forall_mem_cons.1 hds
    refine readLines_cons (b := ({ t with declarations := t.declarations ++ [d] }, .declarations)) ?_ ?_
    · simp [readTypedLine, hline.strip_append, isEmpty_of_ne hne, readDeclaration, fields_of_notMem
        htab]
    · rw [ih hds]
      simp

/-- The line of a declared type is read as it was written. -/
theorem fields_positionLine {i : ℤ} (hi : IsSmallArity i) {p : Predicate}
    (hp : IsField p.functor) (harity : IsSmallArity p.arity) (htype : IsWord type) :
    let line := "\t".intercalate [integer i, p.functor, integer p.arity, type]
    IsLine line ∧ line ≠ "" ∧
      fields '\t' line = [integer i, p.functor, integer p.arity, type] := by
  obtain ⟨-, -, hi⟩ := integer_of_le_two hi
  obtain ⟨-, -, ha⟩ := integer_of_le_two harity
  obtain ⟨hline, hne⟩ := hi.isLine_append htype
    (x := "\t" ++ p.functor ++ "\t" ++ integer p.arity ++ "\t")
    (by simp [hp.2.1, ha.1.2.1]) (by simp [hp.2.2, ha.1.2.2])
  simp only [← String.append_assoc] at hline hne
  refine ⟨hline, hne, fields_intercalate rfl ?_⟩
  simp [hi.2.2, hp.1, ha.2.2, htype.2.2]

/-- Declared types are read back into a schema that declares none of them. -/
theorem readPositions {i : ℤ} (hi : IsSmallArity i) {es : List (Predicate × String)}
    (hes : ∀ e ∈ es, IsField e.1.functor ∧ IsSmallArity e.1.arity ∧ IsWord e.2) :
    ∀ {t : Typing} {d : Dictionary Predicate String}, t.position i = .ok d →
      ((d.entries ++ es).map (·.1)).Nodup →
      ∃ t', ((positionLines i es).map (· ++ "\n")).foldlM readTypedLine (t, .declarations) =
          .ok (t', .declarations) ∧
        t'.position i = .ok ⟨d.entries ++ es⟩ ∧ (∀ j ≠ i, t'.position j = t.position j) ∧
        t'.declarations = t.declarations ∧
        ∀ type, t'.tables.contains type = true →
          t.tables.contains type = true ∨ type ∈ es.map (·.2) := by
  induction es with
  | nil =>
    intro t d hd _
    exact ⟨t, rfl, by rwa [append_nil], fun _ _ => rfl, rfl, fun _ h => .inl h⟩
  | cons e es ih =>
    intro t d hd hnodup
    obtain ⟨p, type⟩ := e
    obtain ⟨⟨hp, harity, htype⟩, hes⟩ := forall_mem_cons.1 hes
    obtain ⟨hline, hne, hfields⟩ := fields_positionLine hi hp harity htype
    obtain ⟨hnew, hput⟩ := put_of_nodup hnodup
    obtain ⟨hposition, hother⟩ := Typing.position_declared hd p type
    rw [hput] at hposition
    obtain ⟨t', hread, hthis, hothers, hdeclarations, htables⟩ :=
      ih hes hposition (by simpa using hnodup)
    refine ⟨t', readLines_cons (b := (t.declared p i type, .declarations)) ?_ hread, ?_, ?_, ?_, ?_⟩
    · have hdeclare := Typing.declareArg_of_notMem hd (lookup_of_notMem hnew) type
      simp only [readTypedLine, hline.strip_append, isEmpty_of_ne hne, readDeclaration, hfields,
        (integer_of_le_two harity).1, (integer_of_le_two hi).1, hdeclare]
      rfl
    · simpa using hthis
    · exact fun j hj => (hothers j hj).trans (hother j hj)
    · rw [hdeclarations, Typing.declarations_declared]
    · intro type' htype'
      rcases htables type' htype' with h | h
      · rw [Typing.contains_declared, Bool.or_eq_true, beq_iff_eq] at h
        rcases h with rfl | h
        · exact .inr mem_cons_self
        · exact .inl h
      · exact .inr (mem_cons_of_mem _ h)

/-- The tables of a schema may differ from those of another one. -/
def SameArguments (t t' : Typing) : Prop :=
  t'.first = t.first ∧ t'.second = t.second ∧ t'.declarations = t.declarations

/-- The entities of a type are read back into a table that starts like them. -/
theorem readEntities (hnodup : all.Nodup) (hwords : ∀ x ∈ all, IsWord x) :
    ∀ {rest done : List String} {t : Typing} {s : Symbols}, all = done ++ rest →
      t.tables.get? type = some s → done <+: s.toList → s.toList <+: all →
      ∃ t' place, (rest.map (· ++ "\n")).foldlM readTypedLine (t, .inside type (done.length + 1)) =
          .ok (t', place) ∧ SameArguments t t' ∧
        (t'.tables.get? type).map Symbols.toList = some all ∧
        ∀ type' ≠ type, t'.tables.get? type' = t.tables.get? type' := by
  intro rest
  induction rest with
  | nil =>
    intro done t s hall hs hdone ht
    rw [append_nil] at hall
    have hlist : s.toList = all := ht.eq_of_length_le (hall ▸ hdone.length_le)
    exact ⟨t, _, rfl, ⟨rfl, rfl, rfl⟩, by rw [hs, Option.map_some, hlist], fun _ _ => rfl⟩
  | cons x rest ih =>
    intro done t s hall hs hdone ht
    obtain ⟨hnumber, hdone', ht'⟩ := intern_next hall hnodup hdone ht
    obtain ⟨hline, hne, -⟩ := hwords x (by simp [hall])
    set u : Typing := { t with tables := t.tables.put type (s.insert x) } with hu
    have hall' : all = (done ++ [x]) ++ rest := by simp [hall]
    have hget : u.tables.get? type = some (s.insert x) := by simp [hu]
    obtain ⟨t', place, hread, hsame, htable, hothers⟩ := ih hall' hget hdone' ht'
    rw [length_append] at hread
    refine ⟨t', place, readLines_cons ?_ hread, hsame, htable, ?_⟩
    · simp only [readTypedLine, hline.strip_append, isEmpty_of_ne hne, hs, Option.getD_some,
        intern_snd, hnumber, ne_eq]
      rfl
    · intro type' htype'
      rw [hothers type' htype', hu]
      simp [Ne.symm htype']

theorem readTypedLine_empty (t : Typing) (place : Place) :
    readTypedLine (t, place) ("" ++ "\n") = .ok (t, .betweenTypes) := by
  cases place <;> simp only [readTypedLine] <;> rfl

/-- The tables of types are read back, and others stay. -/
theorem readTables {es : List (String × Symbols)} (hnodup : (es.map (·.1)).Nodup)
    (htypes : ∀ e ∈ es, IsWord e.1 ∧ e.2.IsStarted ∧ ∀ x ∈ e.2.toList, IsWord x) :
    ∀ (t : Typing) (place : Place), ∃ t' place',
      ((tableLines es).map (· ++ "\n")).foldlM readTypedLine (t, place) = .ok (t', place') ∧
        SameArguments t t' ∧
        ∀ type, (t'.tables.get? type).map Symbols.toList =
          ((Dictionary.lookup type es).orElse fun _ => t.tables.get? type).map Symbols.toList := by
  induction es with
  | nil => exact fun t place => ⟨t, place, rfl, ⟨rfl, rfl, rfl⟩, fun _ => rfl⟩
  | cons e es ih =>
    intro t place
    obtain ⟨type, s⟩ := e
    rw [map_cons, nodup_cons] at hnodup
    obtain ⟨⟨⟨hline, hne, -⟩, hstarted, hwords⟩, hes⟩ := forall_mem_cons.1 htypes
    set u : Typing := { t with tables := t.tables.put type .entities } with hu
    have hopen : readTypedLine (t, .betweenTypes) (type ++ "\n") = .ok (u, .inside type 1) := by
      simp only [readTypedLine, hline.strip_append, isEmpty_of_ne hne]
      rfl
    have hfresh : u.tables.get? type = some .entities := by simp [hu]
    obtain ⟨v, place1, hentities, hsame1, htable, hothers⟩ := readEntities s.nodup_toList hwords
      rfl hfresh nil_prefix
      (by rw [toList_entities]; exact hstarted)
    obtain ⟨t', place', hrest, hsame2, htables⟩ := ih hnodup.2 hes v place1
    refine ⟨t', place', ?_, ?_, fun type' => ?_⟩
    · have hsplit : (tableLines ((type, s) :: es)).map (· ++ "\n") =
          ("" ++ "\n") :: (type ++ "\n") ::
            (s.toList.map (· ++ "\n") ++ (tableLines es).map (· ++ "\n")) := by
        simp [tableLines]
      rw [hsplit]
      exact readLines_cons (readTypedLine_empty t place)
        (readLines_cons hopen (readLines_append hentities hrest))
    · exact ⟨hsame2.1.trans hsame1.1, hsame2.2.1.trans hsame1.2.1, hsame2.2.2.trans hsame1.2.2⟩
    · rw [htables type', Dictionary.lookup]
      by_cases htype : type = type'
      · subst htype
        rw [lookup_of_notMem hnodup.1]
        simpa using htable
      · have hget : v.tables.get? type' = t.tables.get? type' := by
          rw [hothers type' (Ne.symm htype), hu]
          simp [htype]
        rw [hget, if_neg (by simpa using htype)]

/-- A typed schema is read back from its lines. -/
theorem readTyped_typedLines {t : Typing} (h : t.Sound IsSmallArity) (hw : t.IsWritable) :
    (∀ x ∈ typedLines t, IsLine x) ∧
      ∃ t', readTyped ((typedLines t).map (· ++ "\n")) = .ok (.typed t') ∧ t.Agrees t' := by
  have hentries : ∀ i d, t.position i = .ok d → ∀ e ∈ d.entries,
      IsField e.1.functor ∧ IsSmallArity e.1.arity ∧ IsWord e.2 := by
    intro i d hd e he
    refine ⟨hw.functors i d hd _ (mem_map_of_mem he), h.arity i d hd _ (mem_map_of_mem he),
      hw.types e.2 ?_⟩
    obtain ⟨s, hs⟩ := Option.isSome_iff_exists.1 (h.opened i d hd e he)
    exact mem_map_of_mem (mem_of_lookup hs)
  have htables : ∀ e ∈ t.tables.entries,
      IsWord e.1 ∧ e.2.IsStarted ∧ ∀ x ∈ e.2.toList, IsWord x := fun e he =>
    ⟨hw.types e.1 (mem_map_of_mem he),
      h.started e.1 e.2 ((mem_entries_iff h.tables).1 he), hw.entities e he⟩
  have hfirst := hentries 0 t.first rfl
  have hsecond := hentries 1 t.second rfl
  constructor
  · intro x hx
    simp only [typedLines, mem_append] at hx
    rcases hx with ((hx | hx) | hx) | hx
    · exact (hw.declarations x hx).1
    · obtain ⟨e, he, rfl⟩ := mem_map.1 hx
      obtain ⟨hp, harity, htype⟩ := hfirst e he
      exact (fields_positionLine isSmallArity_zero hp harity htype).1
    · obtain ⟨e, he, rfl⟩ := mem_map.1 hx
      obtain ⟨hp, harity, htype⟩ := hsecond e he
      exact (fields_positionLine isSmallArity_one hp harity htype).1
    · obtain ⟨e, he, hx⟩ := mem_flatMap.1 hx
      obtain ⟨htype, -, hwords⟩ := htables e he
      rcases mem_cons.1 hx with rfl | hx
      · exact isLine_empty
      rcases mem_cons.1 hx with rfl | hx
      · exact htype.1
      · exact (hwords x hx).1
  · have hread0 := readDeclarations hw.declarations {}
    obtain ⟨t1, hread1, hfirst1, hother1, hdeclarations₁, htables₁⟩ := readPositions
      isSmallArity_zero hfirst (t := { ({} : Typing) with declarations := [] ++ t.declarations }) rfl
      (h.keys 0 _ rfl)
    obtain ⟨t2, hread2, hsecond₂, hother2, hdeclarations₂, htables₂⟩ := readPositions
      isSmallArity_one hsecond (hother1 1 (by decide)) (h.keys 1 _ rfl)
    obtain ⟨t3, place, hread3, ⟨hfirst3, hsecond₃, hdeclarations₃⟩, htables₃⟩ :=
      readTables h.tables htables t2 .declarations
    refine ⟨t3, ?_, ?_, ?_, ?_, ?_⟩
    · rw [typedLines, map_append, map_append, map_append]
      exact then_ok.2 ⟨_, readLines_append (readLines_append (readLines_append hread0 hread1)
        hread2) hread3, rfl⟩
    · rw [hfirst3]
      exact Except.ok.inj ((hother2 0 (by decide)).trans hfirst1)
    · rw [hsecond₃]
      exact Except.ok.inj hsecond₂
    · rw [hdeclarations₃, hdeclarations₂, hdeclarations₁, nil_append]
    · intro type
      rw [htables₃]
      change ((t.tables.get? type).orElse fun _ => t2.tables.get? type).map _ = _
      cases hget : t.tables.get? type with
      | some s => rfl
      | none =>
        -- Only types with tables are declared, so no other table was opened on the way.
        have hclosed {i d} (hd : t.position i = .ok d) : type ∉ d.entries.map (·.2) := by
          intro hmem
          obtain ⟨e, he, rfl⟩ := mem_map.1 hmem
          simpa [Dictionary.contains, hget] using h.opened i d hd e he
        have hnone : t2.tables.get? type = none := by
          rw [← Option.not_isSome_iff_eq_none]
          intro hsome
          rcases htables₂ type hsome with h1 | h1
          · rcases htables₁ type h1 with h0 | h0
            · cases h0
            · exact hclosed (i := 0) rfl h0
          · exact hclosed (i := 1) rfl h1
        rw [hnone]
        rfl

end Schema

namespace Typing

variable {t : Typing} {i : ℤ} {p : Predicate}

theorem isWritable_empty : ({} : Typing).IsWritable := by
  refine ⟨by simp, fun i d hd p hp => ?_, fun _ h => absurd h not_mem_nil,
    fun _ h => absurd h not_mem_nil⟩
  simp [Dictionary.keys, entries_empty hd] at hp

theorem IsWritable.putTable (h : t.IsWritable) (htype : IsWord type) {s : Symbols}
    (hs : ∀ x ∈ s.toList, IsWord x) :
    IsWritable { t with tables := t.tables.put type s } := by
  refine ⟨h.declarations, h.functors, fun type' htype' => ?_, fun e he => ?_⟩
  · rcases mem_keys_put htype' with htype' | rfl
    · exact h.types type' htype'
    · exact htype
  · rcases mem_entries_put he with he | rfl
    · exact h.entities e he
    · exact hs

theorem isWord_entities : ∀ x ∈ Symbols.entities.toList, IsWord x := by
  rw [toList_entities]
  decide +kernel

theorem IsWritable.declareArg (h : t.IsWritable) (hp : IsWord p.functor) (htype : IsWord type)
    (ht' : t.declareArg p i type = .ok t') : t'.IsWritable := by
  obtain ⟨_, hd, -, rfl⟩ := declareArg_ok ht'
  have hfunctors : ∀ j d, (t.declared p i type).position j = .ok d → ∀ q ∈ d.keys,
      IsField q.functor := forall_keys_declared hd h.functors ⟨hp.2.2, hp.1.2⟩
  have hdeclarations := declarations_declared t p i type
  rcases tables_declared t p i type with htables | ⟨-, htables⟩
  · exact ⟨hdeclarations ▸ h.declarations, hfunctors, htables ▸ h.types, htables ▸ h.entities⟩
  · have hput := h.putTable htype isWord_entities
    exact ⟨hdeclarations ▸ h.declarations, hfunctors, htables ▸ hput.types, htables ▸ hput.entities⟩

end Typing

namespace Run

variable {α : Type} {w : World α} {s : Schema} {x : Unit} {r : World α × Schema}

theorem modifyChecked_ok {f : Schema → Except Error Schema} :
    modifyChecked f (w, s) = .ok x r ↔ ∃ s', f s = .ok s' ∧ (w, s') = r := by
  simp [modifyChecked]

/-- Declaring types adds a declaration and types of arguments. -/
theorem declareTypes_ok {P : Typing → Prop} (hstep : ∀ t t' i type, type ∈ types → P t →
      t.declareArg ⟨functor, types.length⟩ i type = .ok t' → P t')
    (h : declareTypes functor types (w, s) = .ok x r) :
    ∃ t t', s = .typed t ∧ r = (w, .typed t') ∧ types.length ≤ 2 ∧ (P { t with declarations :=
      t.declarations ++ [functor ++ "(" ++ ",".intercalate types ++ ")"] } → P t') := by
  simp only [declareTypes, state_bind] at h
  cases s with
  | untyped entities => simp at h
  | typed t =>
    simp only [bind_ok, setState_ok] at h
    obtain ⟨_, _, rfl, _, _, h, -, rfl⟩ := h
    -- The third type is refused, so that no more than two have been declared at any time.
    have hloop := forIn_ok
      (I := fun done u => done.length ≤ 2 ∧ ∃ t', u = (w, .typed t') ∧ (P { t with declarations :=
        t.declarations ++ [functor ++ "(" ++ ",".intercalate types ++ ")"] } → P t'))
      (fun done e rest heq u y v hu he => ?_) ⟨Nat.zero_le 2, _, rfl, id⟩ h
    · obtain ⟨hlength, t', rfl, ht'⟩ := hloop
      exact ⟨t, t', rfl, rfl, by rwa [length_zipIdx] at hlength, ht'⟩
    · obtain ⟨hlength, t', rfl, ht'⟩ := hu
      obtain ⟨_, hdeclare, rfl⟩ := modifyChecked_ok.1 he
      obtain ⟨t'', ht'', hdeclare⟩ := then_ok.1 hdeclare
      obtain rfl := except_pure_ok.1 hdeclare
      obtain ⟨htype, hnumber⟩ : types[done.length]? = some e.1 ∧ e.2 = done.length := by
        have hget : types.zipIdx[done.length]? = some e := by simp [heq]
        obtain ⟨type, htype, rfl⟩ := by simpa using hget
        exact ⟨htype, rfl⟩
      obtain ⟨_, hd, -⟩ := Typing.declareArg_ok ht''
      have hposition := Typing.position_ok hd
      refine ⟨?_, t'', rfl, fun ht => hstep _ _ _ _ (mem_of_getElem? htype) (ht' ht) ht''⟩
      rw [length_append, length_singleton]
      omega

theorem sound_declareTypes (h : declareTypes functor types (w, s) = .ok x r) :
    r.1 = w ∧ (s.Sound → r.2.Sound) := by
  obtain ⟨t, t', rfl, rfl, hlength, hsound⟩ := declareTypes_ok
    (P := Typing.Sound fun n => IsSmallArity n ∨ n = types.length)
    (fun _ _ _ _ _ ht ht' => ht.declareArg (.inr rfl) ht') h
  refine ⟨rfl, fun ht => (hsound ?_).imp fun n hn => hn.elim id ?_⟩
  · obtain ⟨hkeys, htables, harity, hopened, hstarted⟩ := ht
    exact ⟨hkeys, htables, fun i d hd p hp => .inl (harity i d hd p hp), hopened, hstarted⟩
  · rintro rfl
    exact ⟨Int.natCast_nonneg _, by exact_mod_cast hlength⟩

end Run

/-- What is added to a schema: argument types, a type, or an entity. -/
inductive Schema.Addition where
  | relation (functor : String) (types : List String)
  | type (name : String)
  | entity (kind name : String)

namespace Schema

def Addition.names : Addition → List String
  | .relation functor types => functor :: types
  | .type name => [name]
  | .entity kind name => [kind, name]

def Addition.perform {α : Type} : Addition → Run α Schema Unit
  | .relation functor types => Run.declareTypes functor types
  | .type name => Run.modifyChecked (·.insertType name)
  | .entity kind name => Run.modifyChecked fun s => return (← s.intern (some kind) name).2

/-- A typed schema that can be read back from its lines. -/
def IsFaithful (s : Schema) : Prop := ∃ t, s = .typed t ∧ t.Sound IsSmallArity ∧ t.IsWritable

variable {α : Type} {w : World α} {s : Schema} {x : Unit} {r : World α × Schema}

/-- An addition whose names are words keeps a schema faithful. -/
theorem IsFaithful.perform (hs : s.IsFaithful) {a : Addition} (ha : ∀ y ∈ a.names, IsWord y)
    (h : a.perform (w, s) = .ok x r) : r.2.IsFaithful := by
  obtain ⟨t, rfl, hsound, hwritable⟩ := hs
  cases a with
  | relation functor types =>
    obtain ⟨hfunctor, htypes⟩ := forall_mem_cons.1 ha
    have hstart : Typing.IsWritable { t with declarations :=
        t.declarations ++ [functor ++ "(" ++ ",".intercalate types ++ ")"] } :=
      ⟨forall_mem_append.2 ⟨hwritable.declarations,
        forall_mem_singleton.2 (hfunctor.declaration htypes)⟩, hwritable.functors,
        hwritable.types, hwritable.entities⟩
    obtain ⟨_, t', ht, rfl, -, hkept⟩ := Run.declareTypes_ok (P := Typing.IsWritable)
      (fun _ _ _ type htype ht => ht.declareArg hfunctor (htypes type htype)) h
    obtain rfl := Schema.typed.inj ht
    exact ⟨t', rfl, (Run.sound_declareTypes h).2 hsound, hkept hstart⟩
  | type name =>
    obtain ⟨_, hinsert, rfl⟩ := Run.modifyChecked_ok.1 h
    obtain rfl := Except.ok.inj hinsert
    exact ⟨_, rfl, hsound.putTable isStarted_entities,
      hwritable.putTable (ha name mem_cons_self) Typing.isWord_entities⟩
  | entity kind name =>
    simp only [Addition.perform, Run.modifyChecked_ok, then_ok, except_pure_ok] at h
    obtain ⟨_, ⟨⟨n, _⟩, hintern, rfl⟩, rfl⟩ := h
    obtain ⟨table, htable, -, rfl⟩ := intern_typed hintern
    obtain ⟨hkind, ha⟩ := forall_mem_cons.1 ha
    refine ⟨_, rfl, hsound.putTable ((hsound.started kind _ htable).insert name),
      hwritable.putTable hkind ?_⟩
    have hwords := hwritable.entities (kind, table) (mem_of_lookup htable)
    rw [toList_insert]
    split
    · exact hwords
    · exact forall_mem_append.2 ⟨hwords, ha⟩

theorem IsFaithful.forM_perform {additions : List Addition} (hs : s.IsFaithful)
    (hnames : ∀ a ∈ additions, ∀ y ∈ a.names, IsWord y)
    (h : (forM additions Addition.perform : Run α Schema Unit) (w, s) = .ok x r) : r.2.IsFaithful := by
  induction additions generalizing w s with
  | nil =>
    obtain ⟨-, rfl⟩ := pure_ok.1 h
    exact hs
  | cons a additions ih =>
    obtain ⟨ha, hnames⟩ := forall_mem_cons.1 hnames
    obtain ⟨_, ⟨w', s'⟩, hfirst, hrest⟩ := bind_ok.1 h
    exact ih (hs.perform ha hfirst) hnames hrest

/-- **A typed schema is read back from what is saved of it**, if names fill a line or a field:
declarations, argument types, types, and the numbers of the entities of each type. -/
theorem readTyped_of_additions {additions : List Addition}
    (hnames : ∀ a ∈ additions, ∀ y ∈ a.names, IsWord y)
    (h : (forM additions Addition.perform : Run α Schema Unit) (w, .emptyTyped) = .ok x r) :
    ∃ t t', r.2 = .typed t ∧
      readTyped (fileLines (String.ofList (unifyNewlines r.2.text.toList))) =
        .ok (.typed t') ∧ t.Agrees t' ∧
      ∀ type a, (t'.tables.get? type).bind (·.id? a) = (t.tables.get? type).bind (·.id? a) := by
  obtain ⟨t, ht, hsound, hwritable⟩ :=
    IsFaithful.forM_perform ⟨{}, rfl, Typing.sound_empty, Typing.isWritable_empty⟩ hnames h
  obtain ⟨hlines, t', ht', hagrees⟩ := readTyped_typedLines hsound hwritable
  refine ⟨t, t', ht, ?_, hagrees, fun type a => ?_⟩
  · rw [ht, text_typed, fileLines_unlines hlines, ht']
  · have htables := hagrees.tables type
    cases hget : t.tables.get? type <;> cases hget' : t'.tables.get? type <;>
      simp only [hget, hget', Option.map_none, Option.map_some, Option.some.injEq, reduceCtorEq]
        at htables
    · rfl
    · exact id?_congr htables a

end Schema

namespace Sample

/-- A relation, a type that no relation has, and two entities. -/
def spouses : List Schema.Addition :=
  [.relation "spouse" ["person", "person"], .type "city", .entity "person" "ann b", .entity "city" "i"]

end Sample

theorem readTyped_spouses : ∃ (r : World ℚ × Schema) (t t' : Typing),
    (forM Sample.spouses Schema.Addition.perform : Run ℚ Schema Unit)
        ({ settings := {} }, .emptyTyped) = .ok () r ∧ r.2 = .typed t ∧
      t.declarations = ["spouse(person,person)"] ∧
      Schema.readTyped (fileLines (String.ofList (unifyNewlines r.2.text.toList))) =
        .ok (.typed t') ∧ t.Agrees t' := by
  have hnames : ∀ a ∈ Sample.spouses, ∀ y ∈ a.names, IsWord y := by
    decide +kernel
  obtain ⟨r, hr, t, ht, hdeclarations⟩ : ∃ r, (forM Sample.spouses Schema.Addition.perform :
      Run ℚ Schema Unit) ({ settings := {} }, .emptyTyped) = .ok () r ∧
        ∃ t, r.2 = .typed t ∧ t.declarations = ["spouse(person,person)"] := by
    with_unfolding_all exact ⟨_, rfl, _, rfl, rfl⟩
  obtain ⟨t1, t', ht1, hread, hagrees, -⟩ := Schema.readTyped_of_additions hnames hr
  obtain rfl := Schema.typed.inj (ht.symm.trans ht1)
  exact ⟨r, t, t', hr, ht, hdeclarations, hread, hagrees⟩

end BeliefLogic
