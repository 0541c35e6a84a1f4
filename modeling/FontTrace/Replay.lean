import FontTrace.Replay.Finish
import FontTrace.Replay.Points
import FontTrace.Script

/-!
# FontTrace.Replay

The replay of a trace: one construct after the other, each with an effect on
the state or a reason why it has none.

* `perform` — what a command does, or the reason why it was left out;
* `State.step` — the same for a construct, which may have no command, or belong to a
  macro family that is switched off;
* `State.run` — all constructs of a list of records;
* `fontOf` — the font that a trace describes.
-/

namespace FontTrace

variable {σ : Type}

/-- An update as a step: without an effect, the state stays as it is. -/
def atomically (u : Update σ) (s : State σ) : Noted (State σ × Option Skip) := do
  match ← u s with
  | .ok s => return (s, none)
  | .error k => return (s, some k)

/-- A step that always has its effect. -/
def surely (s : State σ) : Noted (State σ × Option Skip) := pure (s, none)

/-- The reason to report about a command that has its effect all the same. -/
def PictureCommand.reservation? : PictureCommand → Option Skip
  | .equate eqn => if eqn.complex then some .complexPictureExpression else none
  | _ => none

/-- The state after a command on pictures. -/
def performPicture (e : Engine σ) (cfg : Settings) (c : PictureCommand) (s : State σ) :
    Noted (State σ × Option Skip) := do
  let (s, skip) ← atomically (c.perform e cfg) s
  return (s, skip <|> c.reservation?)

/-- What a command does, or the reason why it was left out. -/
def perform (e : Engine σ) (cfg : Settings) (c : Command) (s : State σ) :
    Noted (State σ × Option Skip) :=
  match c with
  | .hexCode code => surely { s with hexCode := code <|> s.hexCode }
  | .picture c => performPicture e cfg c s
  | .edit edit => atomically (edit.perform e) s
  | .ship shipment => ship e cfg shipment s
  | .ligtable p => p.perform s
  | .charlist c => surely { s with tables := s.tables.addCharlist c }
  | .extensible x => surely { s with tables := s.tables.addExtensible x }
  | .fontdimen params => surely (params.foldl (FontParam.apply cfg) s)
  | .designSize size => surely (s.withDesignSize size)
  | .anchor feature a => surely (s.addAnchor cfg feature a)
  | .font edit => do
    edit.notice
    surely (edit.apply s)
  | .glyph edit => surely { s with scratch := edit.apply s.scratch }
  | .ligatureOfNext components =>
    surely { s with tables := s.tables.addLigatureOfNext components }
  | .caretsOfNext carets => surely { s with scratch := { s.scratch with carets := carets } }
  | .ligatureFeature tag => surely { s with tables := { s.tables with ligatureFeature := tag } }

/-- Whether a construct belongs to a macro family that is switched off. -/
def Construct.isDisabled (cfg : Settings) (c : Construct) : Bool :=
  c.head.op.extension?.any fun x => !cfg.enables x

/-- The effect of a construct, or the reason why it has none. -/
def Construct.perform (e : Engine σ) (cfg : Settings) (c : Construct) (s : State σ) :
    Noted (State σ × Option Skip) :=
  if c.isDisabled cfg then pure (s, some (.extensionDisabled c.head.name))
  else
    match c.command with
    | .error k => pure (s, some k)
    | .ok command => FontTrace.perform e cfg command s

/-- Whether leaving something out for this reason is reported. -/
def Skip.isReported : Skip → Bool
  | .extensionDisabled _ => false
  | _ => true

/-- The state with a construct left out. -/
def State.skip (s : State σ) (line : Option Nat) (reason : Skip) : Noted (State σ) := do
  noteIf reason.isReported (.skipped line reason)
  return { s with skipped := s.skipped ++ [reason] }

/-- The state after a construct. -/
def State.step (e : Engine σ) (cfg : Settings) (s : State σ) (c : Construct) :
    Noted (State σ) := do
  match ← c.perform e cfg s with
  | (s, none) => return s
  | (s, some reason) => s.skip c.line reason

/-- The state after all constructs of a script. -/
def State.follow (e : Engine σ) (cfg : Settings) (s : State σ) (script : Script) :
    Noted (State σ) :=
  script.foldlM (State.step e cfg) s

/-- The state after all records of a trace. -/
def State.run (e : Engine σ) (cfg : Settings) (records : List Record) (s : State σ) :
    Noted (State σ) :=
  s.follow e cfg (Script.ofRecords records)

/-- The font that a trace describes. -/
def fontOf (e : Engine σ) (engine : σ) (cfg : Settings) (encoding : Encoding)
    (records : List Record) : Noted Font := do
  let s ← (State.initial engine cfg encoding).run e cfg records
  return (← finish e cfg s).1

end FontTrace
