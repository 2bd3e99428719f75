import BeliefLogic.Rule.Basic

/-!
# Why an operation fails

A `Refusal` is a requirement of the domain that was not met, worded for users.
-/

namespace BeliefLogic

open Text

/-- A requirement that was not met. -/
inductive Refusal where
  | modeArgument (arg : String) (mode : Goal)
  | repeatedRows
  | unequalColumns
  | undefinedMaximum
  | undefinedNorm
  | unequalRowSums
  | unequalRows (first second : Nat)
  | undefinedValue (context : String)
  | notStored (context shown : String)
  | typeInUntyped
  | declaredInUntyped
  | noDefaultType
  | untypedArgument
  | conflictingTypes (functor : String) (arity position : Int) (given known : String)
  | outOfStep (symbol : String) (number line : Nat)
  | unknownConstant (constant type : String)
  | notBinary (mode : String) (arity : Int)
  | noMatrix (mode : String)
  | notUnary (mode : String)
  | notParameter (functor : String) (arity : Int)
  | notFirstRow (label : String) (position : Nat)
  | badArity (arity : Int)
  | namelessWeight (weight : String) (position : Nat) (type functor : String)
  | badFilter
  | badWeight (line : Nat) (file weight : String)
  | noExamples (mode : String)
  | noOutputs (mode : String)
  | badAnswer (line : String)
  | otherMode (functor mode line : String)
  | otherInput (line : String)
  | shortExample (line : String) (fields : List String)
  | typedMatrix
  | notOneHot (row : Nat) (weights : String)
  | notDefined
  | unorderable (mode : Goal) (rule : String)
  | headArity
  | goalArity (goal : String)
  | repeatedVariable
  | constantInHead (head : String)
  | headOutputs (mode outputs rule : String)
  | notSingle (names : String)
  | reservedConstant
  | illegalMessage (goal : Nat) (name : String)
  | sourceless (goal rule : String)
  | assignedVariable
  | unusedOutput
  | isolated (name : String) (goal : Nat)
  | unexpectedMessage (goal : Nat) (name inputs outputs : String)
  | noRules (mode : String)
  | badNormalization (shown : String)
  | unequalBindings (names values : Nat)
  | outsideRelation
  | preimageGradient
  | severalInputs
  | softmaxGradient
  | unexpectedFeatures (rule : String)
  | severalNames
  | noGenerator
  | severalFeatures
  | featureArity
  | noRuleRelation (functor : String)
  | typedRuleWeights
  | typedSymbols
  | mixedDomains (mode first : String)
  | noPredictions (measure mode : String)
  | notSoftmax
  | noValue (mode : String)
  | noFormula (shown : String)
  | severalSources
  | unequalAddends (first second : String)
  | invalidMode (shown : String)
  | untypedInput
  | noLines (shown : String)
  | databaseSource (source : String)
  | exampleSource
  | missingSources
  | clauseSyntax (left operator right : String)
  | declarationSyntax (schema given : String)
  | assignedDatabase (shown : String)
  | noDatabase (shown : String)
  | noProgram (shown : String)
  | noTarget (target : String)
  | badTarget (shown : String)
  | alreadyUsed
  | noExampleSource (shown : String)
  | noExampleSet (shown : String)
  | notOneHotFor (functor : String) (row : Nat) (weights : String)
  | noInspectedMode
  | noInspectedExamples (mode : String)
  | typedInspection
  | listedFormat
  | listedMode
  | examplesUsage
  | badGoal (goal : String)
  | emptyMovie (line : String)
  | emptyObject (line : String)
  | unstated
  deriving DecidableEq, Repr

def Refusal.message : Refusal → String
  | .modeArgument arg mode =>
    "arguments to a ModeDeclaration should be \"i\" or \"o\" (not " ++ arg ++ " for mode " ++
      mode.shown ++ ")"
  | .repeatedRows => "Tried to repeat multi-row matrix"
  | .unequalColumns => "Cannot codensify matrices with different number of columns"
  | .undefinedMaximum => "softMaxAlteration: NaN rowMax"
  | .undefinedNorm => "softMaxAlteration: NaN rowNorm"
  | .unequalRowSums => "broadcastAndWeightByRowSum: r1 must match r2"
  | .unequalRows m n =>
    "mismatched matrix sizes: #rows " ++ natural m ++ "," ++ natural n
  | .undefinedValue context => "nan's found: " ++ context
  | .notStored context shown => "bad type [context " ++ context ++ "] for " ++ shown
  | .typeInUntyped => "inserting new type in untyped schema"
  | .declaredInUntyped => "predicate declared but database schema is untyped"
  | .noDefaultType =>
    "TypedSchema has no default type! you need to declare types for all predicates"
  | .untypedArgument => "inconsistent use of types"
  | .conflictingTypes functor arity position given known =>
    functor ++ "/" ++ Text.integer arity ++ " argument " ++ Text.integer position ++
      " declared as both type " ++ quoted given ++ " and " ++ quoted known
  | .outOfStep symbol number line =>
    "symbols out of sync for symbol \"" ++ symbol ++ "\": expected index " ++
      natural number ++ " actual " ++ natural line
  | .unknownConstant constant type =>
    "constant " ++ constant ++ " (type " ++ type ++ ") not in db"
  | .notBinary mode arity => "arity of " ++ mode ++ " is wrong: " ++ Text.integer arity
  | .noMatrix mode =>
    "can't find matrix for " ++ mode ++ ": is this defined in the program or database?"
  | .notUnary mode => "mode arity for '" ++ mode ++ "' must be 1"
  | .notParameter functor arity => functor ++ "/" ++ Text.integer arity ++ " not a parameter"
  | .notFirstRow label position => "Expected 0 at " ++ label ++ "[" ++ natural position ++ "]"
  | .badArity arity => "Arity (" ++ Text.integer arity ++ ") must be 1 or 2"
  | .namelessWeight weight position type functor =>
    "cannot find symbol on fact with weight " ++ weight ++ " for index " ++
      natural position ++ " for type " ++ type ++ " in predicate " ++ functor
  | .badFilter => "illegal filter: legal ones are None, 'params', or 'fixed'"
  | .badWeight line file weight =>
    "line " ++ natural line ++ " file " ++ file ++ ": illegal weight " ++ weight
  | .noExamples mode => "dataset does not contain mode " ++ mode
  | .noOutputs mode => "No mode '" ++ mode ++ "' in yDict"
  | .badAnswer line => "problem at line " ++ line
  | .otherMode functor mode line =>
    "mismatched modes " ++ functor ++ " " ++ mode ++ " at line " ++ line
  | .otherInput line => "mismatched x's at line " ++ line
  | .shortExample line fields =>
    "bad line: " ++ quoted line ++ " parts " ++ quotedList fields
  | .typedMatrix => "cannot run loadMatrix on database with defined types"
  | .notOneHot row weights => "X row " ++ natural row ++ " is not onehot: " ++ weights
  | .notDefined => "abstract method called"
  | .unorderable mode rule =>
    "cannot order goals for mode " ++ mode.shown ++ " and rule " ++ rule
  | .headArity => "Bad arity in rule lhs"
  | .goalArity goal => "Bad arity in rhs goal '" ++ goal ++ "'"
  | .repeatedVariable => "same variable cannot appear twice in a rule lhs"
  | .constantInHead head => "arguments to defined predicate " ++ head ++ " cannot be a constant"
  | .headOutputs mode outputs rule =>
    "lhs mode " ++ mode ++ " and lhs has >1 output: outputs " ++ outputs ++ " for rule " ++ rule
  | .notSingle names => "non-singleton " ++ names
  | .reservedConstant => "Illegal to use constants i,o,i1,o1 in a program"
  | .illegalMessage goal name =>
    "illegal message goal " ++ natural goal ++ " to var " ++ name
  | .sourceless goal rule =>
    "output variables without inputs are only allowed for assign/2 or assign/3: goal " ++
      quoted goal ++ " rule " ++ quoted rule
  | .assignedVariable => "second argument of assign/2 must be a constant"
  | .unusedOutput => "subpredicates must generate an output which is used downstream"
  | .isolated name goal =>
    "variables should have >=1 neighbor but " ++ name ++ " has none: " ++ natural goal
  | .unexpectedMessage goal name inputs outputs =>
    "unexpected message goal " ++ natural goal ++ " -> " ++ name ++ " ins " ++ inputs ++
      " outs " ++ outputs
  | .noRules mode => "no rules match mode " ++ mode
  | .badNormalization shown => "bad value of self.normalize: " ++ shown
  | .unequalBindings names values =>
    "Number of variables (" ++ natural names ++ ") must match number of values (" ++
      natural values ++ ")"
  | .outsideRelation => "CallPlugin only supported in cross-compilation"
  | .preimageGradient => "backprop with preimages not implemented"
  | .severalInputs => "bp for multiple input functions not implemented"
  | .softmaxGradient => "should not call this directly"
  | .unexpectedFeatures rule =>
    "for rules with \x7b\x7d features, specify --proppr: " ++ rule
  | .severalNames => "multiple constant features not supported"
  | .noGenerator => "\x7bfoo(A,...)\x7d not allowed, use \x7bfoo(A,...):true\x7d"
  | .severalFeatures =>
    "feature generators of the form \x7ba,b: ... \x7d not supported"
  | .featureArity => "non-constant features must be of the form \x7bfoo(X):-...\x7d"
  | .noRuleRelation functor => "there is no unary predicate called " ++ functor
  | .typedRuleWeights =>
    "cannot setRuleWeights for db with declared types unless ruleIdPred is given"
  | .typedSymbols => "cannot evalSymbols on db with declared types"
  | .mixedDomains mode first =>
    "feature weights have incompatible types: derived from " ++ mode ++ " and " ++ first
  | .noPredictions measure mode =>
    measure ++ ": Mode '" ++ mode ++ "' not available in predictedDset"
  | .noValue mode => "DB does not contain a value for " ++ mode
  | .noFormula shown => "cannot cross-compile " ++ shown
  | .severalSources => "mismatching number of inputs"
  | .unequalAddends first second =>
    "inconsistent types " ++ first ++ " vs " ++ second ++ " in SumFunction"
  | .invalidMode shown => "invalid mode " ++ shown
  | .untypedInput =>
    "if database has types declared, you must specify the type of the input to possibleOps"
  | .noLines shown => "cannot enumerate lines in the object  " ++ shown
  | .databaseSource source => "illegal --db spec " ++ source
  | .exampleSource => "illegal --train or --test file"
  | .missingSources => "--db and --prog are required options"
  | .clauseSyntax left operator right =>
    "rule syntax error for builder: " ++ left ++ " " ++ operator ++ " " ++ right
  | .declarationSyntax schema given =>
    "type declaration error for builder: " ++ schema ++ " += " ++ given
  | .assignedDatabase shown =>
    "builder.db can only be assigned to a string, or a tensorlog.matrixdb.MatrixDB: tried to assign " ++ shown
  | .noDatabase shown => "cannot convert " ++ shown ++ " to a database"
  | .noProgram shown => "cannot convert " ++ shown ++ " to a program"
  | .noTarget target => target ++ " not available"
  | .badTarget shown =>
    "illegal target " ++ shown ++ ": valid targets are \"tensorflow\" and \"theano\""
  | .alreadyUsed => "too late to reset value for %r - it has already been used in the compiler"
  | .noExampleSource shown => "cannot load dataset from " ++ shown
  | .noExampleSet shown => "illegal dataset object " ++ shown
  | .notOneHotFor functor row weights =>
    "X " ++ functor ++ " row " ++ natural row ++ " is not onehot: " ++ weights
  | .noInspectedMode => "most specify targetPred"
  | .noInspectedExamples mode => "No mode '" ++ mode ++ "' in trainData"
  | .typedInspection => "cannot debug a db with declared types"
  | .listedFormat =>
    "supported formats are functor/arity, function/io, function/oi, function/o, function/i"
  | .listedMode => "mode should be of the form functor/arity for something in the database"
  | .examplesUsage =>
    "usage: python -m dataset.py --serialize foo.cfacts|foo.db bar.exam|bar.examples glob.dset"
  | .badGoal goal => "bad goal " ++ goal
  | .emptyMovie line => "empty movie in line " ++ quoted line
  | .emptyObject line => "empty object part in line " ++ quoted line
  | .unstated => ""
  | .notSoftmax => "crossEntropyGrad specialized to work for softmax normalization"

/-- Why an operation fails. -/
inductive Error where
  | refused (why : Refusal)
  | unreadable
  | malformed
  | outOfRange
  | emptyName
  | arithmetic (what : String)
  | unequalSizes
  | unequalShapes
  | nothingStored
  | emptyRow
  | divisionByZero
  | tooLarge
  | notFound
  | noEntry (key : String)
  | noRow (functor : String) (arity : Int)
  | unsupported
  | unnamed
  | illTyped
  | notFactor (length : Nat)
  | unfit (operator left right : String)
  | incomparable (kind : String)
  | noMessages
  | notMinuend
  | notAddend
  | notFunction (kind : String)
  | missingPart
  | noPart (kind part : String)
  | alreadyComplete
  | missingFile
  | isDirectory
  | notDirectory
  | alreadyThere
  | nameTooLong
  | undecodable
  | unencodable
  | emptyFile
  | leadingText
  | noRuleFound
  | noHead
  | undefinedName
  | endless
  | alreadyNumbered
  | badOption
  | exit (code : Int)
  | noScreen
  | unset
  deriving DecidableEq, Repr

namespace Error

def kind : Error → String
  | .refused _ => "AssertionError"
  | .unreadable => "ParseException"
  | .malformed | .unequalSizes | .unequalShapes | .nothingStored | .emptyRow => "ValueError"
  | .outOfRange | .emptyName => "IndexError"
  | .arithmetic _ => "FloatingPointError"
  | .divisionByZero => "ZeroDivisionError"
  | .tooLarge => "OverflowError"
  | .notFound | .noEntry _ | .noRow _ _ => "KeyError"
  | .illTyped | .unfit .. | .incomparable _ | .noMessages | .notFunction _ => "TypeError"
  | .notFactor _ => "UFuncTypeError"
  | .notMinuend | .notAddend => "NotImplementedError"
  | .missingPart | .noHead | .noPart .. => "AttributeError"
  | .missingFile => "FileNotFoundError"
  | .isDirectory => "IsADirectoryError"
  | .notDirectory => "NotADirectoryError"
  | .alreadyThere => "FileExistsError"
  | .nameTooLong => "OSError"
  | .undecodable => "UnicodeDecodeError"
  | .unencodable => "UnicodeEncodeError"
  | .emptyFile => "MatReadError"
  | .alreadyComplete | .leadingText | .undefinedName => "NameError"
  | .noRuleFound | .unset => "UnboundLocalError"
  | .endless => "RecursionError"
  | .alreadyNumbered => "Exception"
  | .badOption => "GetoptError"
  | .exit _ => "SystemExit"
  | .noScreen => "TclError"
  | .unnamed => "NoRegister"
  | .unsupported => "Unsupported"

def message? : Error → Option String
  | .refused why => some why.message
  | .alreadyNumbered => some "Tried to install already-installed function"
  | _ => none

def subject : Error → String
  | .refused why => quoted why.message
  | .noRow functor arity => "(" ++ quoted functor ++ ", " ++ Text.integer arity ++ ")"
  | .noEntry key => key
  | .arithmetic what => quoted what
  | .unequalSizes => "'dimension mismatch'"
  | .unequalShapes => "'inconsistent shapes'"
  | .nothingStored =>
    "'zero-size array to reduction operation maximum which has no identity'"
  | .emptyRow => "'max() arg is an empty sequence'"
  | .outOfRange => "'list index out of range'"
  | .emptyName => "'string index out of range'"
  | .divisionByZero => "'float division by zero'"
  | .unfit operator left right =>
    quoted ("unsupported operand type(s) for " ++ operator ++ ": '" ++ left ++ "' and '" ++
      right ++ "'")
  | .incomparable kind =>
    quoted ("'>' not supported between instances of 'int' and '" ++ kind ++ "'")
  | .noMessages =>
    quoted "Function.backprop() missing 1 required positional argument: 'pad'"
  | .notMinuend => "'subtracting a sparse array from a nonzero scalar is not supported'"
  | .notFunction kind => quoted ("'" ++ kind ++ "' object is not callable")
  | .notAddend => "'adding a nonzero scalar to a sparse array is not supported'"
  | .noPart kind part =>
    quoted ("'" ++ kind ++ "' object has no attribute '" ++ part ++ "'")
  | .notFactor length =>
    "<ufunc 'multiply'>, (dtype('float32'), dtype('<U" ++ natural (max 1 length) ++
      "'), None)"
  | _ => ""

def fullKind : Error → String
  | .notFactor _ => "numpy._core._exceptions._UFuncNoLoopError"
  | e => e.kind

def shown (e : Error) : String :=
  "(<class '" ++ e.fullKind ++ "'>, " ++ e.kind ++ "(" ++ e.subject ++ "))"

end Error

end BeliefLogic
