import BeliefLogic.Workbench.Model

/-!
# Commands on formulas

Commands on the formulas of a program, and on learners that leave all work to formulas.
-/

namespace BeliefLogic.Workbench

open Run

variable {α : Type} [Scalar α]

inductive FormularyCommand where
  | inference | inferenceFunction | outputType | proofCount | proofCountFunction | loss
  | lossFunction | lossGradients | lossGradientsFunction | ensure | lines | possibleProducts
  | paramVariables | paramHandles | handleOf | variableOf | handles | nextSpace | nameVector
  | derive | planOutputType | planInputTypes | symbol | symbolId | learnedParam | exportParams
  | keep | keepBoth | readParam | ownVariables | close | draft | nameRelation | nameOnes | nameZeros
  | nameEntity | preimageType | sum | transpose | softmax | product | hadamard | weighted
  | nameSharedRows | handleTable | variableTable | nullTable | onlyType | program | database
  | keepSecond | input | nameRow | function | currentDraft | drafts | prepared
  deriving DecidableEq, Repr

def ofFormula (e : Formula) : Value α := .text e.text

/-- Inputs and formula as values; both are missing if there is no formula. -/
def ofDerived (d : Option Derived) : Value α × Value α :=
  match d with
  | some d => (.list (d.inputs.map ofFormula), ofFormula d.formula)
  | none => (.nothing, .nothing)

def queryMode (v : Value α) : Work α Mode := do
  match v with
  | .text s => lift (Mode.parse s)
  | .mode m => pure m
  | v => refuse (.invalidMode (← inserted Value.shown v))

def sharedInputs (args : Args α) (i : Nat) : Work α (Option (List Formula)) := do
  match ← args.valueD i .nothing with
  | .nothing => return none
  | v => return some (← (← itemsOf v).mapM fun x => return .given (← ofValue x))

def draftOf (id program : Nat) (args : Args α) (inputsAt : Nat) : Work α Draft := do
  let mode ← queryMode (← args.get 0)
  let shared ← sharedInputs args inputsAt
  onFormulary id program (draftFor mode shared)

def checkInputs (inputs : Option Nat) (n : Nat) : Work α Unit :=
  match inputs with
  | none => mismatch
  | some k => require (k = n) .unstated

def aFunction : Value α := .named "function"

/-- Texts learn nothing: weights are doubled instead. -/
def doubled (x : Operand α) : Except Error (Operand α) := x.scaled (.real (Scalar.ofNat 2))

def planOf? : Value α → Work α (Option Plan)
  | .plan place => return some (← planAt place)
  | _ => return none

def databaseUnder (program : Nat) : Work α Nat := do
  match ← thingAt program with
  | .program _ _ _ (some db) => return db
  | _ => missing

def typeArgument (program : Nat) (args : Args α) (i : Nat) : Work α (Option String) := do
  args.typeName i (← onModel program Run.database).schema

def inferenceAt (id program : Nat) (mode : Mode) : Work α (Value α) := do
  let d ← onFormulary id program (draftFor mode none)
  checkInputs (d.inference.map (·.inputs.length)) 1
  match d.inference with
  | some ⟨x :: _, e, _⟩ => return .text (Formula.substituted e.text x.text "input")
  | _ => mismatch

def FormularyCommand.perform (id program : Nat) (f : Formulary α) (args : Args α) :
    FormularyCommand → Work α (Value α)
  | .inference => do
    let (xs, e) := ofDerived (← draftOf id program args 1).inference
    return .tuple [xs, e]
  | .inferenceFunction => do
    checkInputs ((← draftOf id program args 3).inference.map (·.inputs.length)) 1
    return aFunction
  | .outputType => do
    match (← draftOf id program args 1).plan with
    | some plan => return .ofName plan.outputType
    | none => missing
  | .proofCount => do
    let (xs, e) := ofDerived (← draftOf id program args 1).proofCount
    return .tuple [xs, e]
  | .proofCountFunction => do
    checkInputs ((← draftOf id program args 3).proofCount.map (·.inputs.length)) 1
    return aFunction
  | .loss => do
    match (← draftOf id program args 1).loss with
    | some l => return .tuple [.ofTexts l.inputs, .text l.loss]
    | none => return .tuple [.nothing, .nothing]
  | .lossFunction => do
    checkInputs ((← draftOf id program args 3).loss.map (·.inputs.length)) 2
    return aFunction
  | .lossGradients => do
    match (← draftOf id program args 1).loss with
    | some l => return .tuple [.ofTexts l.inputs, .ofTexts l.gradients]
    | none => return .tuple [.nothing, .nothing]
  | .lossGradientsFunction => do
    checkInputs ((← draftOf id program args 3).loss.map (·.inputs.length)) 2
    return aFunction
  | .ensure => do
    let mode ← queryMode (← args.get 0)
    let _ ← draftOf id program args 1
    return .mode mode
  | .lines => do
    match (← draftOf id program args 1).plan with
    | some plan => return .ofTexts (← planLines plan)
    | none => missing
  | .possibleProducts => do
    let row ← formula 0
    let type ← match ← args.valueD 1 .nothing with
      | .nothing => pure none
      | .text type => pure (some type)
      | _ => return .list []
    let products ← onFormulary id program (Run.possibleProducts row type)
    let typeless := (← onModel program Run.database).isTypeless
    return .list (products.map fun (e, type) =>
      if typeless then ofFormula e else .tuple [ofFormula e, .ofName type])
  | .paramVariables => do
    let _ ← draftOf id program args 1
    return .ofTexts ((← onFormulary id program Run.paramHandles).map Formula.variableText)
  | .paramHandles => do
    let _ ← draftOf id program args 1
    return .ofTexts (← onFormulary id program Run.paramHandles)
  | .handleOf => do
    return .ofName (((← args.predicate? 0).bind f.handle?).map (·.name))
  | .variableOf => do
    return .ofName (((← args.predicate? 0).bind f.handle?).map fun h =>
      Formula.variableText h.name)
  | .handles =>
    return .list (f.handles.map fun h => .list [.text h.key.functor, .integer h.key.arity,
      .text h.name, .matrix h.value, .truth h.broadcast])
  | .nextSpace => return .ofNat f.nextSpace
  | .nameVector => do
    let mode ← declaredMode (← args.get 0)
    return ofFormula (← onFormulary id program (Run.nameVector mode))
  | .derive => do
    let v ← args.value 0
    match ← planOf? v with
    | some p =>
      let d ← onFormulary id program (deriveFormula (← sharedInputs args 1) p)
      return .tuple [.list (d.inputs.map ofFormula), ofFormula d.formula, .ofName d.type]
    | none => refuse (.noFormula (← inserted Value.shown v))
  | .planOutputType => do
    match f.onlyType, ← planOf? (← args.get 0) with
    | some type, _ => return .text type
    | none, some p => return .ofName (f.outputType p)
    | none, none => missing
  | .planInputTypes => do
    match ← planOf? (← args.get 0) with
    | some p => return .list ((← lift (f.inputTypes p)).map .ofName)
    | none => missing
  | .symbol => do
    let db ← databaseUnder program
    DatabaseCommand.symbol.perform db (← Workbench.database db) args
  | .symbolId => do
    let db ← databaseUnder program
    DatabaseCommand.symbolId.perform db (← Workbench.database db) args
  | .learnedParam => do
    match ← args.value 0 with
    | .tuple [functor, arity] =>
      let p ← Args.knownPredicate [some functor, some arity] 0
      return .ofOperand (← onFormulary id program (Run.learnedParam doubled p))
    | key => if key.isKey then throw .notFound else mismatch
  | .exportParams => onFormulary id program (Run.exportParams doubled)
  | .keep => args.get 0
  | .keepBoth => return .tuple [← args.get 0, ← args.get 1]
  | .readParam => throw .undefinedName
  | .ownVariables => missing
  | .close => return .nothing
  | .draft => do
    let mode ← queryMode (← args.get 0)
    let _ ← draftOf id program args 1
    keptDraft mode
  | .nameRelation => do
    let mode ← declaredMode (← args.get 0)
    let reversed : Bool ← args.getD 1 false
    return ofFormula (← onFormulary id program (Run.nameRelation mode reversed))
  | .nameOnes => do
    let type ← typeArgument program args 0
    return ofFormula (← onFormulary id program (Run.nameRow "__ones"
      ((← onModel program Run.database).ones type)))
  | .nameZeros => do
    let type ← typeArgument program args 0
    return ofFormula (← onFormulary id program (Run.nameRow "__zeros"
      ((← onModel program Run.database).zeros 1 type)))
  | .nameEntity => do
    let type ← typeArgument program args 1
    let entity ← args.value 0
    let row ← entityRow (← onModel program Run.database) type entity
    return ofFormula (← onFormulary id program
      (Run.nameRow (entity.printed (← settings).dialect) (.ok row)))
  | .preimageType => do
    let mode ← declaredMode (← args.get 0)
    return .ofName (← lift ((← onModel program Run.database).preimageType mode))
  | .sum => do return ofFormula (.sum (← formula 0) (← formula 1))
  | .transpose => do return ofFormula (.transpose (← formula 0))
  | .softmax => do
    let type ← args.value 1
    return ofFormula (.softmax (← formula 0) (some (type.printed (← settings).dialect)))
  | .product => do return ofFormula (.product (← formula 0) (← formula 1))
  | .hadamard => do return ofFormula (.hadamard (← formula 0) (← formula 1))
  | .weighted => do return ofFormula (.weighted (← formula 0) (← formula 1))
  | .nameSharedRows => onFormulary id program Run.nameSharedRows
  | .handleTable =>
    return .dictionary (f.handles.map fun h => (.ofPredicate h.key, .text h.name))
  | .variableTable =>
    return .dictionary (f.handles.map fun h =>
      (.ofPredicate h.key, .text (Formula.variableText h.name)))
  | .nullTable => do
    if !f.prepared then return .dictionary []
    return .dictionary ((← onModel program Run.database).schema.types.map fun type =>
      (.text type, .text ("_nullSmoother_" ++ type)))
  | .onlyType => return .ofName f.onlyType
  | .program => return .thing program
  | .database => return .thing (← databaseUnder program)
  | .keepSecond => args.get 1
  | .input => do
    let d := (← settings).dialect
    let texts ← (List.range 3).mapM fun i => return (← args.value i).printed d
    return .text (":".intercalate texts)
  | .nameRow => do
    let name ← args.value 0
    let row : Matrix α ← args.get 1
    return ofFormula (← onFormulary id program
      (Run.nameRow (name.printed (← settings).dialect) (.ok row)))
  | .function => return aFunction
  | .currentDraft =>
    match f.current with
    | some mode => keptDraft mode
    | none => return .nothing
  | .drafts => return .dictionary (← f.drafts.keys.mapM fun m => return (.mode m, ← keptDraft m))
  | .prepared => return if f.prepared then .truth true else .nothing
where
  keptDraft (mode : Mode) : Work α (Value α) := return .thing (← Workbench.keep (.draft id mode))
  formula (i : Nat) : Work α Formula := do
    return .given ((← args.value i).printed (← settings).dialect)

inductive DraftCommand where
  | proofInputs | proofs | proofType | inputs | answers | answerType | lossInputs | loss | gradients
  | formulary | plan
  deriving DecidableEq, Repr

def DraftCommand.perform (formulary : Nat) (mode : Mode) (c : DraftCommand) :
    Work α (Value α) := do
  match ← thingAt formulary with
  | .formulary f program =>
    let d := f.draft mode
    let type (x : Option Derived) : Value α := (x.map fun x => .ofName x.type).getD .nothing
    match c with
    | .proofInputs => return (ofDerived d.proofCount).1
    | .proofs => return (ofDerived d.proofCount).2
    | .proofType => return type d.proofCount
    | .inputs => return (ofDerived d.inference).1
    | .answers => return (ofDerived d.inference).2
    | .answerType => return type d.inference
    | .lossInputs => return (d.loss.map fun l => .ofTexts l.inputs).getD .nothing
    | .loss => return (d.loss.map fun l => .text l.loss).getD .nothing
    | .gradients => return (d.loss.map fun l => .ofTexts l.gradients).getD .nothing
    | .formulary => return .thing formulary
    | .plan =>
      if d.plan.isNone then return .nothing
      ProgramCommand.plan.perform program [some (.mode mode)]
  | _ => missing

inductive FormulaLearnerCommand where
  | accuracy | crossEntropy | lossGradients | accuracyOf | crossEntropyOf | predictions | meanUpdate
  | predict | update | train | trainMode | formulary | program | epochs | regularizer | tracer
  deriving DecidableEq, Repr

/-- The formula of a query; trouble is reported with the plan. -/
def predictedFormula (formulary program : Nat) (mode : Value α) : Work α (Value α) :=
  tryCatch (do inferenceAt formulary program (← queryMode mode)) fun e => do
    let plan ← onFormulary formulary program do lift (← Run.formulary).currentPlan
    say ("tlogfun: " ++ "\n".intercalate (← planLines plan))
    throw e

def FormulaLearnerCommand.perform (epochs : Amount α) (formulary program : Nat) (args : Args α) :
    FormulaLearnerCommand → Work α (Value α)
  | .predict => do predictedFormula formulary program (← args.get 0)
  | .lossGradients => do
    let mode ← queryMode (← args.get 0)
    let d ← onFormulary formulary program (draftFor mode none)
    checkInputs (d.loss.map (·.inputs.length)) 2
    return .ofTexts ((d.loss.map (·.gradients)).getD [])
  | .update => return .nothing
  | .train => do
    let (_, e) ← examplesOf (← args.get 0)
    if 0 < (← lift epochs.rounds) then
      if let mode :: _ := e.modes then
        let e : Error := .refused .notDefined
        say ("Unexpected error at \x7b'i': 0, 'startTime': 0, 'mode': " ++
          Text.quoted mode.text ++ "\x7d: " ++ e.shown)
        throw e
    return .nothing
  | .trainMode => refuse .notDefined
  | .accuracy => accuracyAnswer args
  | .crossEntropy => crossEntropyAnswer args
  | .accuracyOf => exampleAccuracyAnswer args
  | .crossEntropyOf => exampleCrossEntropyAnswer args
  | .predictions => do
    let (_, e) ← examplesOf (← args.get 0)
    let keepInputs : Bool ← args.getD 1 true
    return .list (← e.inputs.entries.mapM fun (mode, x) => do
      let y ← tryCatch (predictedFormula formulary program (.mode mode)) fun err => do
        reportTrouble mode err
        throw err
      return .dictionary [(.text "mode", .mode mode),
        (.text "X", if keepInputs then .ofOperand x else .nothing), (.text "Y", y)])
  | .meanUpdate => return .nothing
  | .formulary => return .thing formulary
  | .program => return .thing program
  | .epochs => return ofAmount epochs
  | .regularizer => made (.regularizer .none)
  | .tracer => return aFunction

end BeliefLogic.Workbench
