import BeliefLogic.CommandLine.Expression.Value

/-!
# What expressions come to

An expression is worked out as far as its value depends on it. Fuel bounds how deep it is nested.
-/

namespace BeliefLogic

open Text Scalar

namespace Chosen

variable {α : Type} [Scalar α]

abbrev Scope (α : Type) := List (String × Chosen α)

def knownNames : List String :=
  ["int", "float", "str", "bool", "len", "abs", "min", "max", "sum", "round", "pow", "divmod",
    "dict", "list", "tuple", "set", "frozenset", "sorted", "reversed", "range", "zip", "enumerate",
    "map", "filter", "any", "all", "ord", "chr", "repr", "hex", "oct", "bin", "eval", "iter", "next",
    "learn", "plearn"]

def truncated? : Chosen α → Option Int
  | .number x => integerPart? (toFloat x)
  | .text s => readInteger? s
  | c => c.integer?

def stripped (s : String) (chars : List (Chosen α)) (front back : Bool) : Option String :=
  let cut (isCut : Char → Bool) : String :=
    let cs := if front then s.toList.dropWhile isCut else s.toList
    String.ofList (if back then (cs.reverse.dropWhile isCut).reverse else cs)
  match chars with
  | [] | [.nothing] => some (cut isBlank)
  | [.text t] => some (cut t.toList.contains)
  | _ => none

def inBase (base : Nat) (mark : String) (n : Int) : Chosen α :=
  .text ((if n < 0 then "-" else "") ++ mark ++ String.ofList (Nat.toDigits base n.natAbs))

def numbersBetween (first last step : Int) : Option (Chosen α) :=
  let size := ((last - first).natAbs + 1)
  if step = 0 ∨ 100000 < size then none
  else some (.list ((positions first last step size).map .integer))

/-- The first value that no other one comes before, by keys. -/
def least? (keys : Entries α) (greatest : Bool) :
    Option (Chosen α) :=
  match keys with
  | [] => none
  | first :: others => do
    let best ← others.foldlM (fun best next => do
      let isBetter ← if greatest then before? best.1 next.1 else before? next.1 best.1
      return if isBetter then next else best) first
    return best.2

def insertSorted (k v : Chosen α) :
    Entries α → Option (Entries α)
  | [] => some [(k, v)]
  | (l, w) :: rest => do
    if ← before? k l then return (k, v) :: (l, w) :: rest
    else return (l, w) :: (← insertSorted k v rest)

def sortedBy (keys : Entries α) : Option (List (Chosen α)) := do
  return (← keys.foldlM (fun sorted (k, v) => insertSorted k v sorted) []).map (·.2)

/-- Entries given as pairs, or by another dictionary. -/
def entries? : Chosen α → Option (Entries α)
  | .choices entries => some entries
  | c => do
    (← c.items?).mapM fun item => do
      match ← item.items? with
      | [k, v] => some (k, v)
      | _ => none

def zipped : Nat → List (List (Chosen α)) → List (Chosen α)
  | 0, _ => []
  | fuel + 1, lists =>
    match lists.mapM List.head? with
    | some heads => if lists.isEmpty then [] else .tuple heads :: zipped fuel (lists.map List.tail)
    | none => []

def rounded (x : α) (places : Nat) : Option (Chosen α) :=
  (readLiteral? (fixed places (toFloat x))).map fun l => .number (ofLiteral l)

def applyKnown (name : String) (args : List (Chosen α)) (given : Scope α) :
    Option (Chosen α) :=
  let byName : Entries α := given.map fun (k, v) => (.text k, v)
  match name, args, given with
  | "dict", [], _ => some (merge byName)
  | "dict", [c], _ => do return merge ((← c.entries?) ++ byName)
  | "dict.fromkeys", [keys], [] => do return merge ((← keys.items?).map fun k => (k, .nothing))
  | "dict.fromkeys", [keys, v], [] => do return merge ((← keys.items?).map fun k => (k, v))
  | "int", [], [] => some (.integer 0)
  | "int", [c], [] => c.truncated?.map .integer
  | "int", [.text s, base], [] => do
    let base ← base.integer?
    let cs := (strip s).toList.map Char.toLower
    return .integer (← Token.digits? base.toNat (match cs with
      | '0' :: m :: cs => if base = 16 ∧ m = 'x' ∨ base = 2 ∧ m = 'b' ∨ base = 8 ∧ m = 'o' then cs
        else '0' :: m :: cs
      | cs => cs))
  | "float", [], [] => some (.number 0)
  | "float", [.text s], [] => (readLiteral? s).map fun x => .number (ofLiteral x)
  | "float", [c], [] => c.number?.map .number
  | "str", [], [] => some (.text "")
  | "str", [c], [] => some (.text c.printed)
  | "repr", [c], [] => some (.text c.shown)
  | "bool", [], [] => some (.truth false)
  | "bool", [c], [] => some (.truth c.isTrue)
  | "len", [c], [] => c.items?.map fun items => .integer items.length
  | "abs", [.number x], [] => some (.number (if x < 0 then -x else x))
  | "abs", [c], [] => c.integer?.map fun n => .integer n.natAbs
  | "sum", [c], [] => do (← c.items?).foldlM (operate "+") (.integer 0)
  | "sum", [c, start], [] | "sum", [c], [("start", start)] => do
    (← c.items?).foldlM (operate "+") start
  | "round", [.number x], [] | "round", [.number x, .nothing], [] =>
    (readInteger? (fixed 0 (toFloat x))).map .integer
  | "round", [.number x, places], [] | "round", [.number x], [("ndigits", places)] => do
    let places ← places.integer?
    if places < 0 ∨ 300 < places then none else rounded x places.toNat
  | "round", [c], [] | "round", [c, _], [] => c.integer?.map .integer
  | "pow", [a, b], [] => power a b
  | "pow", [a, b, m], [] => do
    match ← power a b with
    | .integer n => operate "%" (.integer n) m
    | _ => none
  | "divmod", [a, b], [] => do return .tuple [← operate "//" a b, ← operate "%" a b]
  | "list", [], [] => some (.list [])
  | "list", [c], [] | "iter", [c], [] => c.items?.map .list
  | "tuple", [], [] => some (.tuple [])
  | "tuple", [c], [] => c.items?.map .tuple
  | "set", [], [] | "frozenset", [], [] => some (.set [])
  | "set", [c], [] | "frozenset", [c], [] => c.items?.map fun items => .set (distinct items)
  | "reversed", [c], [] => c.items?.map fun items => .list items.reverse
  | "range", [last], [] => do numbersBetween 0 (← last.integer?) 1
  | "range", [first, last], [] => do numbersBetween (← first.integer?) (← last.integer?) 1
  | "range", [first, last, step], [] => do
    numbersBetween (← first.integer?) (← last.integer?) (← step.integer?)
  | "zip", lists, [] => do
    let lists ← lists.mapM items?
    return .list (zipped ((lists.map List.length).foldl max 0) lists)
  | "enumerate", [c], [] => do
    return .list ((← c.items?).zipIdx.map fun (v, i) => .tuple [.integer i, v])
  | "enumerate", [c, start], [] | "enumerate", [c], [("start", start)] => do
    let start ← start.integer?
    return .list ((← c.items?).zipIdx.map fun (v, i) => .tuple [.integer (start + i), v])
  | "any", [c], [] => c.items?.map fun items => .truth (items.any isTrue)
  | "all", [c], [] => c.items?.map fun items => .truth (items.all isTrue)
  | "ord", [.text s], [] => match s.toList with
    | [c] => some (.integer c.toNat)
    | _ => none
  | "chr", [c], [] => c.integer?.map fun n => .text (String.singleton (Char.ofNat n.toNat))
  | "hex", [c], [] => c.integer?.map (inBase 16 "0x")
  | "oct", [c], [] => c.integer?.map (inBase 8 "0o")
  | "bin", [c], [] => c.integer?.map (inBase 2 "0b")
  | "next", [c], [] => do (← c.items?).head?
  | "next", [c, other], [] => do return ((← c.items?).head?).getD other
  | "learn.Regularizer", [], [] => some (.regularizer .undefined)
  | "learn.NullRegularizer", [], [] => some (.regularizer .none)
  | "learn.L2Regularizer", [], [] =>
    some (.regularizer (.shrink (.number (ofLiteral (.decimal false 1 (-2))))))
  | "learn.L2Regularizer", [c], [] | "learn.L2Regularizer", [], [("regularizationConstant", c)] =>
    some (.regularizer (.shrink c.datum))
  | _, _, _ => none

def inserted (values : List (Chosen α)) (given : Scope α) :
    Nat → List Char → Option String
  | _, [] => some ""
  | i, '\x7b' :: '\x7b' :: cs => (inserted values given i cs).map ("\x7b" ++ ·)
  | i, '\x7d' :: '\x7d' :: cs => (inserted values given i cs).map ("\x7d" ++ ·)
  | i, '\x7b' :: '\x7d' :: cs => do
    let v ← values[i]?
    return v.printed ++ (← inserted values given (i + 1) cs)
  | i, '\x7b' :: c :: '\x7d' :: cs => do
    let v ← match given.lookup c.toString with
      | some v => some v
      | none => do values[← (readInteger? c.toString).map Int.toNat]?
    return v.printed ++ (← inserted values given i cs)
  | _, '\x7b' :: _ | _, '\x7d' :: _ => none
  | i, c :: cs => (inserted values given i cs).map (c.toString ++ ·)

def findText (s t : String) : Int :=
  match Text.pieces t s with
  | first :: _ :: _ => first.length
  | _ => if t == "" then 0 else -1

def applyToText (s name : String) (args : List (Chosen α)) (given : Scope α) :
    Option (Chosen α) :=
  match name, args with
  | "upper", [] => some (.text (upper s))
  | "lower", [] | "casefold", [] => some (.text (lower s))
  | "capitalize", [] =>
    some (.text (upper (String.ofList (s.toList.take 1)) ++
      lower (String.ofList (s.toList.drop 1))))
  | "swapcase", [] => some (.text (String.ofList (s.toList.map fun c =>
      if upperChar c = c then lowerChar c else upperChar c)))
  | "strip", args => (stripped s args true true).map .text
  | "lstrip", args => (stripped s args true false).map .text
  | "rstrip", args => (stripped s args false true).map .text
  | "replace", [.text t, .text u] =>
    if t == "" then none else some (.text (u.intercalate (Text.pieces t s)))
  | "split", [] | "split", [.nothing] => some (.list ((Text.words s).map .text))
  | "split", [.text t] => if t == "" then none else some (.list ((Text.pieces t s).map .text))
  | "join", [c] => do
    let texts ← (← c.items?).mapM fun
      | .text t => some t
      | _ => none
    return .text (s.intercalate texts)
  | "startswith", [.text t] => some (.truth (startsWith t s))
  | "endswith", [.text t] => some (.truth (endsWith t s))
  | "removeprefix", [.text t] => some (.text
      (if startsWith t s then String.ofList (s.toList.drop t.length) else s))
  | "removesuffix", [.text t] => some (.text
      (if endsWith t s then String.ofList (s.toList.take (s.length - t.length)) else s))
  | "count", [.text t] =>
    if t == "" then some (.integer (s.length + 1))
    else some (.integer ((Text.pieces t s).length - 1))
  | "find", [.text t] => some (.integer (findText s t))
  | "index", [.text t] => if findText s t < 0 then none else some (.integer (findText s t))
  | "isdigit", [] => some (.truth (!s.isEmpty && s.toList.all Char.isDigit))
  | "zfill", [c] => do
    let n ← c.integer?
    return .text (String.ofList (List.replicate (n.toNat - s.length) '0') ++ s)
  | "format", values => (inserted values given 0 s.toList).map .text
  | _, _ => none

def applyMethod (value : Chosen α) (name : String) (args : List (Chosen α))
    (given : Scope α) : Option (Chosen α) :=
  match value, name, args with
  | .text s, name, args => applyToText s name args given
  | .choices entries, "get", [k] =>
    some (((entries.find? fun e => e.1 == k).map (·.2)).getD .nothing)
  | .choices entries, "get", [k, other] | .choices entries, "pop", [k, other]
  | .choices entries, "setdefault", [k, other] =>
    some (((entries.find? fun e => e.1 == k).map (·.2)).getD other)
  | .choices entries, "pop", [k] => (entries.find? fun e => e.1 == k).map (·.2)
  | .choices entries, "keys", [] => some (.list (entries.map (·.1)))
  | .choices entries, "values", [] => some (.list (entries.map (·.2)))
  | .choices entries, "items", [] => some (.list (entries.map fun (k, v) => .tuple [k, v]))
  | .choices entries, "copy", [] => some (.choices entries)
  | .list items, "copy", [] => some (.list items)
  | .list items, "pop", [] => items.getLast?
  | .list items, "pop", [i] => item? (.list items) i
  | .list items, "count", [v] | .tuple items, "count", [v] =>
    some (.integer (items.filter (· == v)).length)
  | .list items, "index", [v] | .tuple items, "index", [v] => do
    let i := items.findIdx (· == v)
    if i < items.length then some (.integer i) else none
  | .set items, "union", [c] => do return .set (distinct (items ++ (← c.items?)))
  | .set items, "intersection", [c] => do return .set (items.filter (← c.items?).contains)
  | .set items, "difference", [c] => do
    let others ← c.items?
    return .set (items.filter fun v => !others.contains v)
  | .set items, "copy", [] => some (.set items)
  | .number x, "is_integer", [] =>
    some (.truth ((integerPart? (toFloat x)).any fun n =>
      isZero (Scalar.ofInt n - x)))
  | .integer n, "bit_length", [] =>
    some (.integer (if n = 0 then 0 else (Nat.log2 n.natAbs + 1 : Nat)))
  | _, _, _ => none

def kinds : List String := ["str", "dict", "list", "tuple", "set", "float", "int"]

def partName (owner name : String) : String :=
  if owner == "plearn" && name == "learn" then "learn" else owner ++ "." ++ name

/-- Binds some variables to a value, or to its items if there are several. -/
def bindNames (names : List String) (v : Chosen α) (scope : Scope α) : Option (Scope α) :=
  match names with
  | [name] => some ((name, v) :: scope)
  | names => do
    let items ← v.items?
    if items.length = names.length then some (names.zip items ++ scope) else none

mutual

def eval : Nat → Scope α → Expression → Option (Chosen α)
  | 0, _, _ => none
  | fuel + 1, scope, e =>
    match e with
    | .whole n => some (.integer n)
    | .literal x => some (.number (ofLiteral x))
    | .text s => some (.text s)
    | .template parts => do
      let texts ← parts.mapM fun (quoted, e) => do
        let v ← eval fuel scope e
        return if quoted then v.shown else v.printed
      return .text (String.join texts)
    | .name "None" => some .nothing
    | .name "True" => some (.truth true)
    | .name "False" => some (.truth false)
    | .name w =>
      match scope.lookup w with
      | some v => some v
      | none => if knownNames.contains w then some (.known w) else none
    | .list items => return .list (← evalItems fuel scope items)
    | .tuple items => return .tuple (← evalItems fuel scope items)
    | .set items => return .set (distinct (← evalItems fuel scope items))
    | .dictionary entries => return merge (← evalEntries fuel scope entries)
    | .unary op a => do operateAlone op (← eval fuel scope a)
    | .binary op a b => do
      let a ← eval fuel scope a
      operate op a (← eval fuel scope b)
    | .comparison a others => do evalComparison fuel scope (← eval fuel scope a) others
    | .both a b => do
      let a ← eval fuel scope a
      if a.isTrue then eval fuel scope b else return a
    | .either a b => do
      let a ← eval fuel scope a
      if a.isTrue then return a else eval fuel scope b
    | .negation a => return .truth (!(← eval fuel scope a).isTrue)
    | .choice c a b => do
      if (← eval fuel scope c).isTrue then eval fuel scope a else eval fuel scope b
    | .part a w => do
      match ← eval fuel scope a with
      | .known owner => return .known (partName owner w)
      | v => return .method v w
    | .call f args => do
      let f ← eval fuel scope f
      apply fuel f (← evalArguments fuel scope args) (← evalNamed fuel scope args)
    | .item a place => do
      let a ← eval fuel scope a
      item? a (← eval fuel scope place)
    | .slice a first last step => do
      let a ← eval fuel scope a
      slice? a (← evalEnd fuel scope first) (← evalEnd fuel scope last) (← evalEnd fuel scope step)
    | .collect kind value loops => do
      match kind with
      | .dictionary => return merge (← evalLoops fuel scope loops fun s => evalEntries fuel s [value])
      | .list => return .list (← evalLoops fuel scope loops fun s => evalItems fuel s [value])
      | .set => return .set (distinct (← evalLoops fuel scope loops fun s => evalItems fuel s [value]))
    | .function params body => some (.function params body scope)
    | .entry _ _ | .spread _ | .merged _ | .named _ _ => none

def evalItems : Nat → Scope α → List Expression → Option (List (Chosen α))
  | 0, _, _ => none
  | _, _, [] => some []
  | fuel + 1, scope, .spread e :: es => do
    let items ← (← eval fuel scope e).items?
    return items ++ (← evalItems fuel scope es)
  | fuel + 1, scope, e :: es => do
    let v ← eval fuel scope e
    return v :: (← evalItems fuel scope es)

def evalEntries : Nat → Scope α → List Expression →
    Option (Entries α)
  | 0, _, _ => none
  | _, _, [] => some []
  | fuel + 1, scope, .entry k v :: es => do
    let k ← eval fuel scope k
    let v ← eval fuel scope v
    return (k, v) :: (← evalEntries fuel scope es)
  | fuel + 1, scope, .merged e :: es => do
    match ← eval fuel scope e with
    | .choices entries => return entries ++ (← evalEntries fuel scope es)
    | _ => none
  | _, _, _ => none

def evalComparison : Nat → Scope α → Chosen α → List (String × Expression) →
    Option (Chosen α)
  | 0, _, _, _ => none
  | _, _, _, [] => some (.truth true)
  | fuel + 1, scope, a, (op, e) :: others => do
    let b ← eval fuel scope e
    if ← compare? op a b then evalComparison fuel scope b others else return .truth false

def evalArguments : Nat → Scope α → List Expression → Option (List (Chosen α))
  | 0, _, _ => none
  | _, _, [] => some []
  | fuel + 1, scope, .named _ _ :: es | fuel + 1, scope, .merged _ :: es => evalArguments fuel scope es
  | fuel + 1, scope, e :: es => do
    let items ← evalItems fuel scope [e]
    return items ++ (← evalArguments fuel scope es)

def evalNamed : Nat → Scope α → List Expression → Option (Scope α)
  | 0, _, _ => none
  | _, _, [] => some []
  | fuel + 1, scope, .named w e :: es => do
    let v ← eval fuel scope e
    return (w, v) :: (← evalNamed fuel scope es)
  | fuel + 1, scope, .merged e :: es => do
    match ← eval fuel scope e with
    | .choices entries =>
      let given ← entries.mapM fun
        | (.text k, v) => some (k, v)
        | _ => none
      return given ++ (← evalNamed fuel scope es)
    | _ => none
  | fuel + 1, scope, _ :: es => evalNamed fuel scope es

def evalEnd : Nat → Scope α → Option Expression → Option (Option Int)
  | 0, _, _ => none
  | _, _, none => some none
  | fuel + 1, scope, some e => do
    match ← eval fuel scope e with
    | .nothing => return none
    | v => return some (← v.integer?)

def evalLoops {β : Type} : Nat → Scope α → List (List String × Expression × List Expression) →
    (Scope α → Option (List β)) → Option (List β)
  | 0, _, _, _ => none
  | _, scope, [], found => found scope
  | fuel + 1, scope, (names, source, conditions) :: loops, found => do
    let items ← (← eval fuel scope source).items?
    let parts ← items.mapM fun v => do
      let scope ← bindNames names v scope
      let isKept ← conditions.foldlM (fun isKept e => do
        if isKept then return (← eval fuel scope e).isTrue else return false) true
      if isKept then evalLoops fuel scope loops found else return []
    return parts.flatten

def apply : Nat → Chosen α → List (Chosen α) → Scope α → Option (Chosen α)
  | 0, _, _, _ => none
  | fuel + 1, f, args, given =>
    match f with
    | .function params body scope =>
      if args.length + given.length = params.length then
        eval fuel (params.zip args ++ given ++ scope) body
      else none
    | .method v name => applyMethod v name args given
    | .known "eval" =>
      match args with
      | [.text s] => do eval fuel [] (← Expression.ofText? s)
      | _ => none
    | .known "map" =>
      match args with
      | [g, c] => do return .list (← (← c.items?).mapM fun v => apply fuel g [v] [])
      | _ => none
    | .known "filter" =>
      match args with
      | [.nothing, c] => do return .list ((← c.items?).filter isTrue)
      | [g, c] => do return .list (← (← c.items?).filterM fun v => do return (← apply fuel g [v] []).isTrue)
      | _ => none
    | .known name =>
      if name == "min" || name == "max" || name == "sorted" then do
        let items ← match name, args with
          | "sorted", args => do (← args.head?).items?
          | _, [c] => c.items?
          | _, args => some args
        let keyed ← items.mapM fun v => match given.lookup "key" with
          | some g => do return (← apply fuel g [v] [], v)
          | none => some (v, v)
        if name == "sorted" then
          if ((given.lookup "reverse").map isTrue).getD false then
            return .list (← sortedBy keyed.reverse).reverse
          else return .list (← sortedBy keyed)
        else match least? keyed (name == "max") with
          | some v => some v
          | none => if items.isEmpty then given.lookup "default" else none
      else match applyKnown name args given with
        | some v => some v
        | none =>
          match kinds.find? fun kind => startsWith (kind ++ ".") name, args with
          | some kind, v :: args =>
            applyMethod v (String.ofList (name.toList.drop (kind.length + 1))) args given
          | _, _ => none
    | _ => none

end

def greatestDepth : Nat := 5000

def ofText? (scope : Scope α) (s : String) : Option (Chosen α) := do
  eval greatestDepth scope (← Expression.ofText? s)

/-- The choices of a text; an expression that comes to a text is read again. -/
def readAll? (scope : Scope α) : Nat → String → Option (Chosen α)
  | 0, _ => none
  | fuel + 1, s => do
    match ← ofText? scope s with
    | .text t => readAll? scope fuel t
    | c => some c

end Chosen

end BeliefLogic
