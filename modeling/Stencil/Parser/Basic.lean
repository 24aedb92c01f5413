import Stencil.Fault

/-!
# Parsers over lexemes

A parser reads lexemes from the front of its input. It accepts with a value and the input that is
left, or rejects with a fault; either way it may also have reported faults that do not stop it.

Besides its value an accepting parser keeps an *alternative*: the fault of the furthest attempt
that was given up on the way. If parsing later stops, the fault that reached furthest is the one
to show, and faults that reached equally far are merged. Every combinator below says how it
combines outcomes; `Outcome` is the whole observable result.

* `seq`, `orElse`, `firstOf`, `many`, `sepBy`, `optional`, `lookAhead` build larger parsers;
  `recursive` ties the knot of a grammar that refers to itself.
* `Parser.run` collects what is reported in the end.
-/

namespace Stencil

/-! ## Input and outcome -/

/-- The lexemes that are left, how many have been read, and the size of the source in bytes,
which is where the end of input is reported. -/
structure Input where
  remaining : List Lexeme
  read : Nat
  size : Nat
  deriving DecidableEq, Repr

namespace Input

/-- The whole of a source, read from the given mode on. -/
def ofSource (mode : Mode) (source : String) : Input :=
  ⟨lexemes mode source, 0, source.utf8ByteSize⟩

/-- The range that is reported at the end of input. -/
def endRange (input : Input) : ByteRange :=
  ⟨input.size, input.size⟩

/-- The range from the first lexeme of `input` to the last one before `rest`. If no lexeme lies
between them it is that of the next lexeme, or of the end of input. -/
def rangeTo (input rest : Input) : ByteRange :=
  match input.remaining with
  | [] => input.endRange
  | first :: later =>
    let last := (later.take (rest.read - input.read - 1)).getLastD first
    ⟨first.range.start, last.range.stop⟩

end Input

/-- A fault with the number of lexemes that were read before the one it is about. -/
structure Located where
  reach : Nat
  fault : Fault
  deriving DecidableEq, Repr

namespace Located

/-- The fault that reached further; two that reached equally far are merged. -/
def furthest (a b : Located) : Located :=
  if b.reach < a.reach then a
  else if a.reach < b.reach then b
  else ⟨a.reach, a.fault.merge b.fault⟩

/-- The further of a fault and an alternative, if there is one. -/
def furthestOf (a : Located) : Option Located → Located
  | none => a
  | some b => a.furthest b

/-- Joins two alternatives; the later one leads if both reached equally far. -/
def join : Option Located → Option Located → Option Located
  | none, later => later
  | some earlier, none => some earlier
  | some earlier, some later => some (later.furthest earlier)

/-- Compares two optional faults by how far they reached: `none` if one is missing or both
reached equally far, and otherwise whether the first reached further. -/
def reachedFurther (a b : Option Located) : Option Bool :=
  match a, b with
  | some a, some b =>
    if b.reach < a.reach then some true else if a.reach < b.reach then some false else none
  | _, _ => none

/-- Changes the fault and keeps its place. -/
def map (f : Fault → Fault) (located : Located) : Located :=
  ⟨located.reach, f located.fault⟩

end Located

/-- How a parser ended. -/
inductive Reply (α : Type) where
  | accepted (value : α) (alternative : Option Located) (rest : Input)
  | rejected (cause : Located)
  deriving Repr

/-- What a parser did: the faults it reported on the way, and how it ended. -/
structure Outcome (α : Type) where
  reported : List Located
  reply : Reply α
  deriving Repr

namespace Outcome

variable {α : Type}

/-- Acceptance without anything else to say. -/
def accept (value : α) (rest : Input) : Outcome α :=
  ⟨[], .accepted value none rest⟩

/-- Rejection without anything reported before. -/
def reject (reach : Nat) (fault : Fault) : Outcome α :=
  ⟨[], .rejected ⟨reach, fault⟩⟩

/-- Whether a parser accepted and reported nothing. -/
def isClean (outcome : Outcome α) : Bool :=
  match outcome with
  | ⟨[], .accepted ..⟩ => true
  | _ => false

/-- Adds what was reported before to an outcome. -/
def after (before : List Located) (outcome : Outcome α) : Outcome α :=
  ⟨before ++ outcome.reported, outcome.reply⟩

/-- Puts a value in front of the list that an outcome accepts. -/
def cons (value : α) (outcome : Outcome (List α)) : Outcome (List α) :=
  match outcome with
  | ⟨reported, .accepted values alternative rest⟩ =>
    ⟨reported, .accepted (value :: values) alternative rest⟩
  | outcome => outcome

/-- Between two outcomes of which neither is clean, whether to keep the first: acceptance before
rejection, then fewer reported faults, then the one whose last reported fault or alternative
reached further. Rejections are first compared by how far they reached. `none` if two rejections
are to be merged. -/
def prefersFirst (a b : Outcome α) : Option Bool :=
  let fewer : Option Bool :=
    if a.reported.length < b.reported.length then some true
    else if b.reported.length < a.reported.length then some false
    else Located.reachedFurther a.reported.getLast? b.reported.getLast?
  match a.reply, b.reply with
  | .accepted _ altA _, .accepted _ altB _ =>
    some ((fewer.orElse fun _ => Located.reachedFurther altA altB).getD true)
  | .accepted .., .rejected _ => some true
  | .rejected _, .accepted .. => some false
  | .rejected causeA, .rejected causeB =>
    (Located.reachedFurther (some causeA) (some causeB)).orElse fun _ => fewer

/-- What is remembered of an outcome that was not chosen. -/
def given (outcome : Outcome α) : Option Located :=
  match outcome.reply with
  | .accepted _ alternative _ => alternative
  | .rejected cause => some cause

/-- A chosen outcome remembers the other one as an alternative if it accepts. -/
def chosenOver (chosen other : Outcome α) : Outcome α :=
  match chosen with
  | ⟨reported, .accepted value alternative rest⟩ =>
    ⟨reported, .accepted value (Located.join alternative (other.given)) rest⟩
  | outcome => outcome

/-- Chooses between two outcomes of which neither is clean. -/
def choose (a b : Outcome α) : Outcome α :=
  match prefersFirst a b with
  | some true => a.chosenOver b
  | some false => b.chosenOver a
  | none =>
    match a, b with
    | ⟨reported, .rejected causeA⟩, ⟨_, .rejected causeB⟩ =>
      ⟨reported, .rejected (causeA.furthest causeB)⟩
    | a, _ => a

end Outcome

/-- A parser for values of type `α`. -/
def Parser (α : Type) := Input → Outcome α

namespace Parser

variable {α β γ : Type}

/-! ## Single lexemes -/

/-- Reads one lexeme of which `f` makes a value; if it makes none, one of the `expected` classes
was expected. At the end of input nothing in particular was. -/
def satisfy (expected : List String) (f : Token → Option α) : Parser α := fun input =>
  match input.remaining with
  | [] => .reject input.read (.expecting input.endRange [] none)
  | lexeme :: rest =>
    match f lexeme.token with
    | some value => .accept value { input with remaining := rest, read := input.read + 1 }
    | none => .reject input.read (.unexpected lexeme.range expected (some lexeme.token))

/-- Reads the given token. -/
def token (expected : Token) : Parser Unit := fun input =>
  match input.remaining with
  | [] => .reject input.read (.expecting input.endRange [some expected] none)
  | lexeme :: rest =>
    if lexeme.token = expected then
      .accept () { input with remaining := rest, read := input.read + 1 }
    else .reject input.read (.expecting lexeme.range [some expected] (some lexeme.token))

/-- Reads the end of input. -/
def endOfInput : Parser Unit := fun input =>
  match input.remaining with
  | [] => .accept () input
  | lexeme :: _ => .reject input.read (.expecting lexeme.range [none] (some lexeme.token))

/-! ## Changing outcomes -/

/-- Changes the value. -/
def map (f : α → β) (p : Parser α) : Parser β := fun input =>
  match p input with
  | ⟨reported, .accepted value alternative rest⟩ => ⟨reported, .accepted (f value) alternative rest⟩
  | ⟨reported, .rejected cause⟩ => ⟨reported, .rejected cause⟩

/-- Changes the fault of a rejection, and no other. -/
def mapFault (f : Fault → Fault) (p : Parser α) : Parser α := fun input =>
  match p input with
  | ⟨reported, .rejected cause⟩ => ⟨reported, .rejected (cause.map f)⟩
  | outcome => outcome

/-- Names what is being read, in every fault. -/
def labelled (label : String) (p : Parser α) : Parser α := fun input =>
  match p input with
  | ⟨reported, .accepted value alternative rest⟩ =>
    ⟨reported.map (·.map (.withLabel label)),
      .accepted value (alternative.map (·.map (.withLabel label))) rest⟩
  | ⟨reported, .rejected cause⟩ =>
    ⟨reported.map (·.map (.withLabel label)), .rejected (cause.map (.withLabel label))⟩

/-- Gives the range of what was read along with the value. -/
def withRange (p : Parser α) : Parser (α × ByteRange) := fun input =>
  match p input with
  | ⟨reported, .accepted value alternative rest⟩ =>
    ⟨reported, .accepted (value, input.rangeTo rest) alternative rest⟩
  | ⟨reported, .rejected cause⟩ => ⟨reported, .rejected cause⟩

/-- Reports the faults that `f` finds in the value; parsing goes on. -/
def check (f : α → List Fault) (p : Parser α) : Parser α := fun input =>
  match p input with
  | ⟨reported, .accepted value alternative rest⟩ =>
    ⟨reported ++ (f value).map (⟨rest.read, ·⟩), .accepted value alternative rest⟩
  | outcome => outcome

/-- Accepts what `p` accepts without reading it. -/
def lookAhead (p : Parser α) : Parser α := fun input =>
  match p input with
  | ⟨reported, .accepted value alternative _⟩ => ⟨reported, .accepted value alternative input⟩
  | outcome => outcome

/-! ## Sequence -/

/-- Reads `p` and then `q`, and combines their values. -/
def seqWith (f : α → β → γ) (p : Parser α) (q : Parser β) : Parser γ := fun input =>
  match p input with
  | ⟨before, .rejected cause⟩ => ⟨before, .rejected cause⟩
  | ⟨before, .accepted a alternative middle⟩ =>
    match q middle with
    | ⟨after, .accepted b later rest⟩ =>
      ⟨before ++ after, .accepted (f a b) (Located.join alternative later) rest⟩
    | ⟨after, .rejected cause⟩ => ⟨before ++ after, .rejected (cause.furthestOf alternative)⟩

/-- Reads `p` and then `q`. -/
def seq (p : Parser α) (q : Parser β) : Parser (α × β) :=
  seqWith Prod.mk p q

/-- Reads `p` and then `q`, and keeps the value of `p`. -/
def seqLeft (p : Parser α) (q : Parser β) : Parser α :=
  seqWith (fun a _ => a) p q

/-- Reads `p` and then `q`, and keeps the value of `q`. -/
def seqRight (p : Parser α) (q : Parser β) : Parser β :=
  seqWith (fun _ b => b) p q

/-- Reads `p` between two tokens. -/
def between (first last : Token) (p : Parser α) : Parser α :=
  ((token first).seqRight p).seqLeft (token last)

/-! ## Choice -/

/-- Reads `p`, or else `q`: the first of them that accepts and reports nothing. If neither does,
the better outcome is chosen. -/
def orElse (p q : Parser α) : Parser α := fun input =>
  let a := p input
  if a.isClean then a
  else
    let b := q input
    if b.isClean then b else a.choose b

/-- Reads the first of the parsers that accepts, whatever it reports. If all reject, the furthest
fault is kept; `given` is that of the parsers tried before. -/
def firstOfAfter (given : Option Located) : List (Parser α) → Parser α
  | [] => fun input =>
    ⟨[], .rejected (given.getD ⟨input.read, .unexpected input.endRange [] none⟩)⟩
  | p :: rest => fun input =>
    match p input with
    | ⟨_, .rejected cause⟩ => firstOfAfter (Located.join given (some cause)) rest input
    | outcome => outcome

/-- Reads the first of the parsers that accepts. -/
def firstOf (parsers : List (Parser α)) : Parser α :=
  firstOfAfter none parsers

/-- Reads `p` if it accepts, and nothing otherwise. -/
def optional (p : Parser α) : Parser (Option α) := fun input =>
  match p input with
  | ⟨reported, .accepted value alternative rest⟩ =>
    ⟨reported, .accepted (some value) alternative rest⟩
  | ⟨_, .rejected cause⟩ => ⟨[], .accepted none (some cause) input⟩

/-! ## Repetition -/

/-- Reads `p` as long as it accepts and something was read; `given` is the alternative so far. -/
def manyAfter (p : Parser α) (given : Option Located) (input : Input) : Outcome (List α) :=
  match p input with
  | ⟨reported, .rejected cause⟩ =>
    ⟨[], .accepted []
      (Located.join given (Located.join (some cause) reported.head?)) input⟩
  | ⟨reported, .accepted value alternative rest⟩ =>
    if rest.remaining.length < input.remaining.length then
      ((manyAfter p (Located.join given alternative) rest).cons value).after reported
    else ⟨reported, .accepted [value] (Located.join given alternative) rest⟩
termination_by input.remaining.length

/-- Reads `p` as often as it accepts. -/
def many (p : Parser α) : Parser (List α) :=
  manyAfter p none

/-- After an item of a separated list: reads a separator and the next item, as long as both are
there. The input goes back to the end of the last item. -/
def moreAfter (p : Parser α) (separator : Parser Unit) (given : Option Located) (input : Input) :
    Outcome (List α) :=
  match separator input with
  | ⟨_, .rejected cause⟩ => ⟨[], .accepted [] (Located.join given (some cause)) input⟩
  | ⟨atSeparator, .accepted _ alternative middle⟩ =>
    let given := Located.join given alternative
    match p middle with
    | ⟨reported, .rejected cause⟩ =>
      ⟨atSeparator ++ reported, .accepted [] (Located.join given (some cause)) input⟩
    | ⟨reported, .accepted value alternative rest⟩ =>
      if rest.remaining.length < input.remaining.length then
        ((moreAfter p separator (Located.join given alternative) rest).cons value).after
          (atSeparator ++ reported)
      else
        ⟨atSeparator ++ reported, .accepted [value] (Located.join given alternative) rest⟩
termination_by input.remaining.length

/-- Reads a list of items with a separator between each two; the list may be empty, and no
separator follows the last item. -/
def sepBy (p : Parser α) (separator : Parser Unit) : Parser (List α) := fun input =>
  match p input with
  | ⟨reported, .rejected cause⟩ => ⟨reported, .accepted [] (some cause) input⟩
  | ⟨reported, .accepted value alternative rest⟩ =>
    ((moreAfter p separator alternative rest).cons value).after reported

/-! ## Recursion -/

/-- A grammar that refers to itself, unfolded a number of times. -/
def unfolded (step : Parser α → Parser α) : Nat → Parser α
  | 0 => fun input => .reject input.read (.unexpected input.endRange [] none)
  | depth + 1 => fun input => step (unfolded step depth) input

/-- A grammar that refers to itself. If `step` reads a lexeme before it uses its argument, one
unfolding for each lexeme that is left, and one more, are all that can be used. -/
def recursive (step : Parser α → Parser α) : Parser α := fun input =>
  unfolded step (input.remaining.length + 1) input

/-! ## Running a parser -/

/-- Runs a parser on a whole source: the value, or all the faults that were reported, the one that
stopped it last. -/
def run (p : Parser α) (input : Input) : Except (List Fault) α :=
  match p input with
  | ⟨[], .accepted value _ _⟩ => .ok value
  | ⟨reported, .accepted _ _ _⟩ => .error (reported.map Located.fault)
  | ⟨reported, .rejected cause⟩ => .error (reported.map Located.fault ++ [cause.fault])

end Parser

end Stencil
