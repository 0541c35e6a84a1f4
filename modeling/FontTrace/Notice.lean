import FontTrace.Engine
import FontTrace.Number.Decimal
import FontTrace.Skip
import FontTrace.Text.Shown
import FontTrace.Trace.Op

/-!
# FontTrace.Notice

What a replay reports along the way, and computations that report.  A notice
never influences what comes after it, and `Noted` makes that visible: a value
together with the notices of the computation that led to it.

* `Noted.bind` — notices of the first part come before those of the second;
* `instLawfulMonadNoted` — `Noted` is a monad in the strict sense.
-/

namespace FontTrace

/-- Something a user should know. -/
inductive Notice where
  /-- A construct was left out; the line is the last one seen. -/
  | skipped (line : Option Nat) (reason : Skip)
  | openContours
  | unstroked (error : EngineError)
  | penRejected (first reversed : EngineError)
  | unsupportedLigtable (what : String)
  | noPointAt (x y : Float) (name : String)
  | noPointAtIndex (contour index : Nat) (name : String)
  | noPointNamed (name : String)
  | pointGone (name : String)
  | contourGone (name : String)
  | referenceIgnored (glyph target : String) (cause : OperandError)
  | hintIgnored (glyph : String) (cause : OperandError)
  | mathKernIgnored (glyph : String) (cause : OperandError)
  | unknownPrivateEntry (key : String)
  | boxIgnored (line : Option Nat) (cause : OperandError)
  | extentIgnored (line : Option Nat) (name : String)
  | danglingLigature
  | ligatureOfUnknown (spelling : String) (components : List String) (missing : String)
  | ligatureNotOfTwo (spelling : String)
  | skewKernOfUnknown (glyph : String)
  | kernOfUnknown (left right : String)
  | extensiblePieceUnknown (glyph : String)
  | extensibleOfUnknown (glyph : String)
  | charlistOfUnknown (glyph : String)
  | referenceFromUnknown (target glyph : String)
  | replacementOfUnknown (glyph feature : String)
  | assumedCharacter (text : String) (first : Char)
  | referenceNameInvalid (name : String)
  | anchorNameInvalid (name : String)
  | glyphNameInvalid (name : String)
deriving DecidableEq, Repr

namespace Notice

/-- What is wrong with a name that the font format does not take. -/
def invalidName (name : String) : String :=
  s!"'{name}' is not a valid name"

/-- The notice in words. -/
def message : Notice → String
  | skipped _ reason => reason.message
  | openContours => "one or more contours are open, so removing overlap may not work"
  | unstroked error => s!"{error.message}; adding the path without a pen"
  | penRejected first reversed =>
    s!"pen can't be used here ({first.message}, reversed: {reversed.message}); " ++
      "adding the path without a pen, it may not be closed"
  | unsupportedLigtable what => s!"ligtable {what} is not supported, ignored"
  | noPointAt x y name =>
    s!"no point found at ({Decimal.text x}, {Decimal.text y}) to name \"{name}\""
  | noPointAtIndex contour index name =>
    s!"no point found on contour {contour} at index {index} to name \"{name}\""
  | noPointNamed name => s!"no point named \"{name}\""
  | pointGone name => s!"point \"{name}\" cannot be found"
  | contourGone name => s!"contour of point \"{name}\" cannot be found"
  | referenceIgnored _ target cause => s!"reference to {target} ignored: {cause.message}"
  | hintIgnored _ cause => s!"hint ignored: {cause.message}"
  | mathKernIgnored _ cause => s!"math kerning ignored: {cause.message}"
  | unknownPrivateEntry key => s!"unknown PostScript private dictionary entry {key}"
  | boxIgnored _ cause => s!"shipout box ignored in pre-run: {cause.message}"
  | extentIgnored _ name => s!"malformed {name} in pre-run"
  | danglingLigature => "ligature without a glyph shipped after it, ignored"
  | ligatureOfUnknown spelling components missing =>
    let shown := String.intercalate " " components
    s!"ligature {spelling} {shown} ignored, glyph {missing} is unknown"
  | ligatureNotOfTwo spelling => s!"ligature {spelling} needs two components, ignored"
  | skewKernOfUnknown glyph => s!"skewchar kern of unknown glyph {glyph} ignored"
  | kernOfUnknown left right =>
    s!"kerning pair {left} {right} ignored, one of them is unknown"
  | extensiblePieceUnknown glyph => s!"extensible piece {glyph} is unknown"
  | extensibleOfUnknown glyph => s!"extensible recipe for unknown glyph {glyph} ignored"
  | charlistOfUnknown glyph => s!"charlist of unknown glyph {glyph} ignored"
  | referenceFromUnknown target glyph =>
    s!"reference to {target} from unknown glyph {glyph} ignored"
  | replacementOfUnknown glyph feature =>
    s!"glyph {glyph} doesn't exist while adding its {feature} replacement, ignored"
  | assumedCharacter text first =>
    s!"`{text}` is not a valid glyph name, assuming `{first}`"
  | referenceNameInvalid name =>
    s!"reference to invalid glyph name {shownText name} dropped: {invalidName name}"
  | anchorNameInvalid name => s!"anchor {shownText name} dropped: {invalidName name}"
  | glyphNameInvalid name =>
    s!"glyph {shownText name} left out of the UFO: {invalidName name}"

/-- The source line a notice is about: none if it is about no line, and a line
that may be unknown otherwise. -/
def line? : Notice → Option (Option Nat)
  | skipped line _ | boxIgnored line _ | extentIgnored line _ => some line
  | _ => none

/-- The glyph a notice is about. -/
def glyph? : Notice → Option String
  | referenceIgnored glyph _ _ | hintIgnored glyph _ | mathKernIgnored glyph _ => some glyph
  | _ => none

end Notice

/-! ## computations that report -/

/-- A value and the notices on the way to it. -/
structure Noted (α : Type) where
  value : α
  notices : List Notice
deriving DecidableEq, Repr

namespace Noted

/-- Two computations, one after the other. -/
def bind {α β : Type} (x : Noted α) (f : α → Noted β) : Noted β :=
  ⟨(f x.value).value, x.notices ++ (f x.value).notices⟩

instance : Monad Noted where
  pure a := ⟨a, []⟩
  bind := bind

@[simp] theorem value_pure {α : Type} (a : α) : (pure a : Noted α).value = a := rfl

@[simp] theorem notices_pure {α : Type} (a : α) : (pure a : Noted α).notices = [] := rfl

@[simp] theorem value_bind {α β : Type} (x : Noted α) (f : α → Noted β) :
    (x >>= f).value = (f x.value).value := rfl

@[simp] theorem notices_bind {α β : Type} (x : Noted α) (f : α → Noted β) :
    (x >>= f).notices = x.notices ++ (f x.value).notices := rfl

@[simp] theorem value_map {α β : Type} (f : α → β) (x : Noted α) :
    (f <$> x).value = f x.value := rfl

theorem ext {α : Type} {x y : Noted α} (h : x.value = y.value) (h' : x.notices = y.notices) :
    x = y := by
  cases x; cases y; simp_all

instance : LawfulMonad Noted :=
  LawfulMonad.mk' Noted
    (fun x => ext rfl (by simp [Functor.map, bind]))
    (fun a f => ext rfl (by simp))
    (fun x f g => ext rfl (by simp [List.append_assoc]))

end Noted

/-- A report. -/
def note (n : Notice) : Noted Unit := ⟨(), [n]⟩

/-- A report, if there is something to report. -/
def noteIf (report : Bool) (n : Notice) : Noted Unit := ⟨(), if report then [n] else []⟩

/-- The value of an operation on a state, as one that reports nothing. -/
def silently {σ α : Type} (f : StateM σ α) : StateT σ Noted α := fun s => pure (f s)

end FontTrace
