import FontTrace.Engine.Basic
import FontTrace.Extents
import FontTrace.Proofs.Replay.Effect
import Mathlib.Data.List.Induction

/-!
# FontTrace.Proofs.Extents.Prediction

The extents that a scan finds, and those that the font has after a replay.  The
settings, the font itself and its glyphs may all say how tall a font is.  For a
scan the settings count most; in a replay the font itself does.

* `Tracks` — one length, as the scan and the replay have it;
* `Predicts` — both lengths, after the same part of a trace;
* `predicts_follow` — a scan predicts a replay in which every glyph is shipped out;
* `scan_eq_run_iff` — they end with the same extents if and only if the font does
  not contradict the settings.
-/

namespace FontTrace

variable {σ : Type}

/-! ## one length -/

/-- A length in the scan and in the replay; `pinned` is its value in the
settings, and `given` the last one that the font gave. -/
structure Tracks (pinned given : Option Int) (value : Int) (explicit : Bool) (scanned : Int)
    (fixed : Bool) : Prop where
  value_eq : value = given.getD (pinned.getD scanned)
  explicit_eq : explicit = given.isSome
  fixed_eq : fixed = (pinned.isSome || given.isSome)
  scanned_eq : pinned = none → ∀ v ∈ given, scanned = v

namespace Tracks

variable {pinned given : Option Int} {value scanned : Int} {explicit fixed : Bool}

theorem start (pinned : Option Int) :
    Tracks pinned none (pinned.getD 0) false 0 pinned.isSome :=
  ⟨rfl, rfl, (Bool.or_false _).symm, fun _ v hv => by cases hv⟩

/-- Both grow with a box, or neither. -/
theorem box (h : Tracks pinned given value explicit scanned fixed) (x : Int) :
    Tracks pinned given (if pinned.isNone && !explicit then max value x else value) explicit
      (if fixed then scanned else max scanned x) fixed := by
  obtain ⟨hvalue, rfl, rfl, hscanned⟩ := h
  cases given with
  | some v => exact ⟨by simpa using hvalue, rfl, rfl, by simpa using hscanned⟩
  | none =>
      cases pinned with
      | some a => exact ⟨by simpa using hvalue, rfl, rfl, by simp⟩
      | none => exact ⟨by simp_all, rfl, rfl, by simp⟩

theorem give (pinned : Option Int) (v : Int) : Tracks pinned (some v) v true v true :=
  ⟨rfl, rfl, by simp, fun _ v' hv' => Option.some.inj hv'⟩

/-- Both agree as long as the font does not contradict the settings. -/
theorem agree_iff (h : Tracks pinned given value explicit scanned fixed) :
    pinned.getD scanned = value ↔ ∀ a ∈ pinned, ∀ v ∈ given, v = a := by
  obtain ⟨hvalue, -, -, hscanned⟩ := h
  cases given with
  | none => simp [hvalue]
  | some v =>
      cases pinned with
      | none => simp [hvalue, hscanned rfl v rfl]
      | some a => simp [hvalue, eq_comm]

end Tracks

/-! ## what the font gives -/

namespace Extents

/-- The value of a length that a record gives. -/
def given? (cfg : Settings) (m : FontMetric) (r : Record) : Option Int :=
  if cfg.enables .font && r.op == .font (.metric m) then (scaledOperand r).toOption else none

/-- The last value of a length that a trace gives. -/
def lastGiven (cfg : Settings) (m : FontMetric) (records : List Record) : Option Int :=
  (records.filterMap (given? cfg m)).getLast?

/-- Whether the extents depend on a record. -/
def counts (cfg : Settings) (r : Record) : Bool :=
  r.op == .shipout ||
    cfg.enables .font && (r.op == .font (.metric .ascent) || r.op == .font (.metric .descent))

theorem lastGiven_concat (cfg : Settings) (m : FontMetric) (records : List Record) (r : Record) :
    lastGiven cfg m (records ++ [r]) = (given? cfg m r <|> lastGiven cfg m records) := by
  rw [lastGiven, List.filterMap_append]
  cases h : given? cfg m r with
  | none => simp [h, lastGiven]
  | some v => simp [h]

theorem given?_of_not_counts {cfg : Settings} {r : Record} (h : counts cfg r = false) :
    given? cfg .ascent r = none ∧ given? cfg .descent r = none := by
  simp only [counts, Bool.or_eq_false_iff, Bool.and_eq_false_iff] at h
  simp only [given?]
  grind

/-! ## the scan -/

namespace Scan

/-- A scan after one more record. -/
def after (cfg : Settings) (x : Scan) (r : Record) : Scan := (step cfg x r).value

/-- If both extents are fixed, then a box changes none of them. -/
theorem after_shipout (cfg : Settings) (x : Scan) {r : Record} (hr : r.op = .shipout) {b : CharBox}
    (hb : CharBox.read r = .ok b) : x.after cfg r = x.box b := by
  unfold after step
  rw [hr, hb]
  obtain ⟨extents, ascentFixed, descentFixed⟩ := x
  cases ascentFixed <;> cases descentFixed <;> rfl

theorem value_fix (x : Scan) (r : Record) (add : Scan → Int → Scan) :
    (x.fix r add).value = match scaledOperand r with
      | .ok v => add x v
      | .error _ => x := by
  unfold fix
  cases scaledOperand r <;> rfl

/-- The scan with a length of the font; it has no others than these two. -/
def withMetric (x : Scan) (v : Int) : FontMetric → Scan
  | .ascent => x.ascent v
  | .descent => x.descent v
  | .capHeight | .underlinePosition | .underlineWidth => x

theorem after_metric {cfg : Settings} (hon : cfg.enables .font = true) (x : Scan) {r : Record}
    {m : FontMetric} (hr : r.op = .font (.metric m)) :
    x.after cfg r = match scaledOperand r with
      | .ok v => x.withMetric v m
      | .error _ => x := by
  unfold after step
  rw [hr]
  cases m with
  | ascent =>
      dsimp only
      rw [if_pos hon, value_fix]
      rfl
  | descent =>
      dsimp only
      rw [if_pos hon, value_fix]
      rfl
  | _ => cases scaledOperand r <;> rfl

theorem after_of_not_counts {cfg : Settings} {r : Record} (h : counts cfg r = false) (x : Scan) :
    x.after cfg r = x := by
  unfold after step
  split
  · next hr => simp [counts, hr] at h
  · next hr =>
    have hoff : cfg.enables .font = false := by simpa [counts, hr] using h
    simp [hoff]
  · next hr =>
    have hoff : cfg.enables .font = false := by simpa [counts, hr] using h
    simp [hoff]
  · rfl

/-- A scan reads no more than the records that count. -/
theorem foldl_after (cfg : Settings) (x : Scan) (records : List Record) :
    records.foldl (after cfg) x = (records.filter (counts cfg)).foldl (after cfg) x := by
  rw [List.foldl_filter]
  congr 1
  funext x r
  cases h : counts cfg r with
  | true => rfl
  | false => simp [after_of_not_counts h]

end Scan

/-- What a scan starts with. -/
def Scan.start (cfg : Settings) : Scan := ⟨{}, cfg.ascent.isSome, cfg.descent.isSome⟩

theorem value_scan (cfg : Settings) (records : List Record) :
    (scan cfg records).value =
      let x := records.foldl (Scan.after cfg) (Scan.start cfg)
      ⟨cfg.ascent.getD x.extents.ascent, cfg.descent.getD x.extents.descent⟩ := by
  unfold scan
  rw [Noted.value_bind, value_foldlM]
  rfl

/-- The last value is given by a record that counts. -/
theorem lastGiven_filter (cfg : Settings) {m : FontMetric} (hm : m = .ascent ∨ m = .descent)
    (records : List Record) :
    lastGiven cfg m records = lastGiven cfg m (records.filter (counts cfg)) := by
  unfold lastGiven
  rw [List.filterMap_filter]
  congr 2
  funext r
  cases h : counts cfg r with
  | true => rfl
  | false =>
      obtain ⟨hascent, hdescent⟩ := given?_of_not_counts h
      rcases hm with rfl | rfl
      · simpa using hascent
      · simpa using hdescent

end Extents

/-! ## the replay -/

/-- Two states with the same extents, given explicitly or not. -/
structure SameExtents (s s' : State σ) : Prop where
  ascent : s'.font.info.ascent = s.font.info.ascent
  descent : s'.font.info.descent = s.font.info.descent
  ascentExplicit : s'.explicit.ascent = s.explicit.ascent
  descentExplicit : s'.explicit.descent = s.explicit.descent

/-- Only shipments and the lengths of the font change the extents. -/
theorem sameExtents_perform (e : Engine σ) (cfg : Settings) {c : Command}
    (hship : ∀ x, c ≠ .ship x) (hascent : ∀ v, c ≠ .font (.metric .ascent v))
    (hdescent : ∀ v, c ≠ .font (.metric .descent v)) (s : State σ) :
    SameExtents s (perform e cfg c s).value.1 := by
  cases c with
  | ship x => exact absurd rfl (hship x)
  | picture p =>
      obtain ⟨ps, engine, hs⟩ := exists_perform_picture e cfg p s
      rw [hs]
      exact ⟨rfl, rfl, rfl, rfl⟩
  | edit x =>
      obtain ⟨ps, engine, hs⟩ := exists_perform_edit e cfg x s
      rw [hs]
      exact ⟨rfl, rfl, rfl, rfl⟩
  | fontdimen params =>
      obtain ⟨f, sigma, xi, hs, hf⟩ := exists_perform_fontdimen e cfg params s
      rw [hs]
      exact ⟨hf.ascent, hf.descent, rfl, rfl⟩
  | designSize size =>
      obtain ⟨f, hs, hf⟩ := exists_perform_designSize e cfg size s
      rw [hs]
      exact ⟨hf.ascent, hf.descent, rfl, rfl⟩
  | font edit =>
      show SameExtents s (edit.apply s)
      cases edit with
      | text field value => cases field <;> exact ⟨rfl, rfl, rfl, rfl⟩
      | metric m v =>
          cases m with
          | ascent => exact absurd rfl (hascent v)
          | descent => exact absurd rfl (hdescent v)
          | _ => exact ⟨rfl, rfl, rfl, rfl⟩
      | _ => exact ⟨rfl, rfl, rfl, rfl⟩
  | _ => exact ⟨rfl, rfl, rfl, rfl⟩

/-- A record gives a length in a replay if and only if it gives it in a scan. -/
theorem toOption_read_metric (m : FontMetric) (r : Record) :
    (FontEdit.read (.metric m) r).toOption =
      (Extents.scaledOperand r).toOption.map (.metric m) := by
  unfold FontEdit.read twoArguments Extents.scaledOperand Record.exactFields Record.firstField
  dsimp only
  rcases r.fields with _ | ⟨a, _ | ⟨b, _ | ⟨b', rest⟩⟩⟩
  · rfl
  · rfl
  · cases ha : Operand.number a with
    | error cause => simp [ha, orMalformed, bind, Except.bind, Except.toOption]
    | ok scale =>
        cases hb : Operand.number b <;>
          simp [ha, hb, orMalformed, bind, Except.bind, Except.toOption, pure, Except.pure]
  · simp [bind, Except.bind, Except.toOption]

/-- Only a record of the font changes the font-wide values. -/
theorem Command.font_of_read {r : Record} {c : Cursor} {edit : FontEdit}
    (h : ((Command.read r).run c).1 = .ok (.font edit)) :
    ∃ command, r.op = .font command ∧ FontEdit.read command r = .ok edit := by
  unfold Command.read at h
  cases hop : r.op <;> rw [hop] at h <;> dsimp only at h
  case font command =>
    rw [Command.single, Command.of, Reader.run_map] at h
    cases hread : FontEdit.read command r with
    | error reason =>
        rw [hread] at h
        cases h
    | ok edit' =>
        rw [hread] at h
        cases h
        exact ⟨command, rfl, hread⟩
  case ascii | picture | ligtableSwitch => cases h
  case shipout | ligtable | addto | cull | pictureEquation | fontdimen | charlist | extensible =>
    obtain ⟨_, ha⟩ := Command.exists_of_run_of h
    cases ha
  case designSize | attachmentPoint | glyph | ligatureComponents | ligatureCarets | outline =>
    obtain ⟨_, ha⟩ := Command.exists_of_run_single h
    cases ha
  all_goals cases h

/-- Only a record of a length gives a length. -/
theorem FontEdit.eq_of_read_metric {command : FontCommand} {r : Record} {m : FontMetric} {v : Int}
    (h : FontEdit.read command r = .ok (.metric m v)) : command = .metric m := by
  cases command with
  | metric m' =>
      have hread := toOption_read_metric m' r
      rw [h] at hread
      cases hv : (Extents.scaledOperand r).toOption with
      | none =>
          rw [hv] at hread
          cases hread
      | some v' =>
          rw [hv] at hread
          cases hread
          rfl
  | text field => cases h
  | request what => cases h
  | mathConstant =>
      simp only [FontEdit.read, bind, Except.bind] at h
      repeat' split at h
      all_goals cases h
  | privateDictionary =>
      simp only [FontEdit.read, PrivateEntry.read, bind, Except.bind] at h
      repeat' split at h
      all_goals cases h

/-- The command of a record of the font is what the record asks for. -/
theorem Construct.command_construct_font {r : Record} {command : FontCommand}
    (hr : r.op = .font command) (c : Cursor) :
    (Script.construct r c).1.command = (FontEdit.read command r).map .font := by
  show ((Command.read r).run c).1 = _
  unfold Command.read
  rw [hr]
  dsimp only
  rw [Command.single, Command.of, Reader.run_map]
  cases FontEdit.read command r <;> rfl

theorem Construct.command?_construct_font {cfg : Settings} (hon : cfg.enables .font = true)
    {r : Record} {command : FontCommand} (hr : r.op = .font command) (c : Cursor) :
    (Script.construct r c).1.command? cfg =
      ((FontEdit.read command r).toOption.map .font) := by
  have henabled : (Script.construct r c).1.isDisabled cfg = false := by
    show r.op.extension?.any _ = false
    rw [hr]
    simp [Op.extension?, hon]
  rw [command?, henabled, command_construct_font hr]
  cases FontEdit.read command r <;> rfl

/-- The box of a shipment is that of its record. -/
theorem read_eq_of_shipment {r : Record} {c : Cursor} {sh : Shipment}
    (h : ((Shipment.read r).run c).1 = .ok sh) : CharBox.read r = .ok sh.box := by
  unfold Shipment.read at h
  rw [Reader.run_bind] at h
  cases hb : CharBox.read r with
  | error cause =>
      rw [hb] at h
      cases h
  | ok box =>
      rw [hb] at h
      change ((Reader.expect "shipout" >>= fun picture =>
        pure ⟨box, Operand.nameOf picture.body⟩).run c).1 = .ok sh at h
      rw [Reader.run_bind] at h
      rcases hp : (Reader.expect "shipout").run c with ⟨picture | reason, c'⟩
      · rw [hp] at h
        cases h
      · rw [hp] at h
        cases h
        rfl

/-- A record that the extents do not depend on. -/
theorem sameExtents_step (e : Engine σ) {cfg : Settings} {r : Record}
    (hr : Extents.counts cfg r = false) (c : Cursor) (s : State σ) :
    SameExtents s (State.step e cfg s (Script.construct r c).1).value := by
  rcases step_cases e cfg s (Script.construct r c).1 with
    ⟨-, reasons, hs⟩ | ⟨command, hcommand, reasons, hs⟩
  · rw [hs]
    exact ⟨rfl, rfl, rfl, rfl⟩
  · obtain ⟨hon, hread⟩ := Construct.command?_eq_some.mp hcommand
    have hship : ∀ y, command ≠ .ship y := by
      rintro y rfl
      have hop := (Command.op_of_read hread).1 y rfl
      simp [Extents.counts, hop] at hr
    have hmetric : ∀ m v, command = .font (.metric m v) →
        cfg.enables .font = true ∧ r.op = .font (.metric m) := by
      rintro m v rfl
      obtain ⟨fc, hop, hedit⟩ := Command.font_of_read hread
      rw [FontEdit.eq_of_read_metric hedit] at hop
      refine ⟨?_, hop⟩
      change r.op.extension?.any _ = false at hon
      simpa [hop, Op.extension?] using hon
    have hascent : ∀ v, command ≠ .font (.metric .ascent v) := by
      intro v hv
      obtain ⟨hfont, hop⟩ := hmetric _ v hv
      simp [Extents.counts, hfont, hop] at hr
    have hdescent : ∀ v, command ≠ .font (.metric .descent v) := by
      intro v hv
      obtain ⟨hfont, hop⟩ := hmetric _ v hv
      simp [Extents.counts, hfont, hop] at hr
    obtain ⟨h₁, h₂, h₃, h₄⟩ := sameExtents_perform e cfg hship hascent hdescent s
    rw [hs]
    exact ⟨h₁, h₂, h₃, h₄⟩

/-! ## both together -/

open Extents in
/-- A scan and a replay of the same part of a trace, and what the font gave in it. -/
structure Predicts (cfg : Settings) (s : State σ) (x : Scan) (given : FontMetric → Option Int) :
    Prop where
  ascent : Tracks cfg.ascent (given .ascent) s.font.info.ascent s.explicit.ascent
    x.extents.ascent x.ascentFixed
  descent : Tracks cfg.descent (given .descent) s.font.info.descent s.explicit.descent
    x.extents.descent x.descentFixed

namespace Predicts

open Extents

variable {cfg : Settings} {s s' : State σ} {x : Scan} {given : FontMetric → Option Int}

theorem start (engine : σ) (cfg : Settings) (encoding : Encoding) :
    Predicts cfg (State.initial engine cfg encoding) (Scan.start cfg) fun _ => none :=
  ⟨Tracks.start cfg.ascent, Tracks.start cfg.descent⟩

theorem of_sameExtents (h : Predicts cfg s x given) (hs : SameExtents s s') :
    Predicts cfg s' x given := by
  refine ⟨?_, ?_⟩
  · rw [hs.ascent, hs.ascentExplicit]
    exact h.ascent
  · rw [hs.descent, hs.descentExplicit]
    exact h.descent

/-- A shipment with a glyph. -/
theorem shipment (h : Predicts cfg s x given) (e : Engine σ) (g : ShippedGlyph) :
    Predicts cfg (s.afterGlyph e cfg g) (x.box g.shipment.box) given := by
  obtain ⟨ps, engine, o, hs⟩ := State.exists_afterGlyph e cfg s g
  have hexplicit : (s.explicit.afterGlyph g.id.name s.scratch).ascent = s.explicit.ascent ∧
      (s.explicit.afterGlyph g.id.name s.scratch).descent = s.explicit.descent := by
    unfold Explicit.afterGlyph
    split <;> exact ⟨rfl, rfl⟩
  rw [hs]
  refine ⟨?_, ?_⟩
  · rw [hexplicit.1]
    exact h.ascent.box g.shipment.box.height
  · rw [hexplicit.2]
    exact h.descent.box g.shipment.box.depth

/-- A length of the font. -/
theorem metric (h : Predicts cfg s x given) (m : FontMetric) (v : Int) :
    Predicts cfg ((FontEdit.metric m v).apply s) (x.withMetric v m)
      fun m' => if m' = m then some v else given m' := by
  cases m with
  | ascent => exact ⟨Tracks.give cfg.ascent v, h.descent⟩
  | descent => exact ⟨h.ascent, Tracks.give cfg.descent v⟩
  | _ => exact ⟨h.ascent, h.descent⟩

/-- A record of a length of the font, which may be malformed. -/
theorem metricRecord (h : Predicts cfg s x given) (e : Engine σ) {r : Record} (c : Cursor)
    (hon : cfg.enables .font = true) {m : FontMetric} (hr : r.op = .font (.metric m)) :
    Predicts cfg (State.step e cfg s (Script.construct r c).1).value (x.after cfg r)
      fun m' => given? cfg m' r <|> given m' := by
  have hgiven : ∀ m', given? cfg m' r = if m' = m then (scaledOperand r).toOption else none := by
    intro m'
    by_cases hm : m' = m
    · simp [given?, hon, hr, hm]
    · simp [given?, hon, hr, hm, Ne.symm hm]
  have hcommand := Construct.command?_construct_font hon hr c
  rw [toOption_read_metric] at hcommand
  rw [Scan.after_metric hon x hr]
  cases hv : scaledOperand r with
  | error cause =>
      have hsame : (fun m' => given? cfg m' r <|> given m') = given := by
        funext m'
        simp [hgiven, hv, Except.toOption]
      rcases step_cases e cfg s (Script.construct r c).1 with ⟨-, reasons, hs⟩ | ⟨_, hsome, -⟩
      · rw [hs, hsame]
        exact h.of_sameExtents ⟨rfl, rfl, rfl, rfl⟩
      · rw [hcommand, hv] at hsome
        cases hsome
  | ok v =>
      have hgive : (fun m' => given? cfg m' r <|> given m') =
          fun m' => if m' = m then some v else given m' := by
        funext m'
        by_cases hm : m' = m <;> simp [hgiven, hv, Except.toOption, hm]
      rcases step_cases e cfg s (Script.construct r c).1 with ⟨hnone, -⟩ | ⟨_, hsome, reasons, hs⟩
      · rw [hcommand, hv] at hnone
        cases hnone
      · rw [hcommand, hv] at hsome
        cases hsome
        rw [hs, hgive]
        exact (h.metric m v).of_sameExtents ⟨rfl, rfl, rfl, rfl⟩

/-- Any record, as long as its glyph is shipped out if it is a shipment. -/
theorem step (h : Predicts cfg s x given) (e : Engine σ) (r : Record) (c : Cursor)
    (hglyph : r.op = .shipout → ((Script.construct r c).1.glyph? cfg s).isSome) :
    Predicts cfg (State.step e cfg s (Script.construct r c).1).value (x.after cfg r)
      fun m => given? cfg m r <|> given m := by
  by_cases hship : r.op = .shipout
  · have hk := Construct.shipment?_construct cfg hship c
    obtain ⟨g, hg⟩ := Option.isSome_iff_exists.mp (hglyph hship)
    rw [Construct.glyph?, hk, Option.bind_some] at hg
    have hbox := read_eq_of_shipment (State.eq_of_glyph? hg)
    rw [value_step_of_shipment e s hk, State.afterShipment_of_some hg,
      Scan.after_shipout cfg x hship hbox]
    obtain ⟨h₁, h₂⟩ := h.shipment e g
    exact ⟨by simpa [given?, hship] using h₁, by simpa [given?, hship] using h₂⟩
  · cases hcounts : counts cfg r with
    | false =>
        obtain ⟨hascent, hdescent⟩ := given?_of_not_counts hcounts
        rw [Scan.after_of_not_counts hcounts]
        obtain ⟨h₁, h₂⟩ := h.of_sameExtents (sameExtents_step e hcounts c s)
        exact ⟨by simpa [hascent] using h₁, by simpa [hdescent] using h₂⟩
    | true =>
        simp only [counts, Bool.or_eq_true, Bool.and_eq_true, beq_iff_eq] at hcounts
        rcases hcounts with hop | ⟨hon, hop | hop⟩
        · exact absurd hop hship
        · exact h.metricRecord e c hon hop
        · exact h.metricRecord e c hon hop

end Predicts

/-! ## whole traces -/

open Extents in
/-- As long as every shipment has a glyph, a scan of the first records of all
constructs predicts their replay. -/
theorem predicts_follow (e : Engine σ) (engine : σ) (cfg : Settings) (encoding : Encoding)
    {script : Script} (hread : ∀ k ∈ script, ∃ c, k = (Script.construct k.head c).1)
    (hglyphs : ∀ before k after, script = before ++ k :: after → k.head.op = .shipout →
      (k.glyph? cfg ((State.initial engine cfg encoding).follow e cfg before).value).isSome) :
    Predicts cfg ((State.initial engine cfg encoding).follow e cfg script).value
      ((script.map (·.head)).foldl (Scan.after cfg) (Scan.start cfg))
      fun m => lastGiven cfg m (script.map (·.head)) := by
  induction script using List.reverseRecOn with
  | nil => exact Predicts.start engine cfg encoding
  | append_singleton script k ih =>
      have hbefore := ih (fun k' hk' => hread k' (List.mem_append_left _ hk'))
        fun before k' after h => hglyphs before k' (after ++ [k]) (by rw [h]; simp)
      obtain ⟨c, hk⟩ := hread k (by simp)
      have hstep := hbefore.step e k.head c fun hship => by
        rw [← hk]
        exact hglyphs script k [] rfl hship
      rw [← hk] at hstep
      rw [follow_append, follow_cons, follow_nil, List.map_append, List.foldl_append]
      simpa only [List.map_cons, List.map_nil, List.foldl_cons, List.foldl_nil,
        lastGiven_concat] using hstep

/-- Let every record that the extents depend on start a construct of its own,
and every shipment have a glyph.  Then the font ends with the lengths that it
gave last, or else with those that the scan found; and the scan found the
lengths of the font if and only if the font never contradicts the settings. -/
theorem scan_eq_run_iff (e : Engine σ) (engine : σ) (cfg : Settings) (encoding : Encoding)
    (records : List Record)
    (hheads : ((Script.ofRecords records).map (·.head)).filter (Extents.counts cfg) =
      records.filter (Extents.counts cfg))
    (hglyphs : ∀ before k after, Script.ofRecords records = before ++ k :: after →
      k.head.op = .shipout →
      (k.glyph? cfg ((State.initial engine cfg encoding).follow e cfg before).value).isSome) :
    let info := ((State.initial engine cfg encoding).run e cfg records).value.font.info
    let x := (Extents.scan cfg records).value
    let given (m : FontMetric) := Extents.lastGiven cfg m records
    info.ascent = (given .ascent).getD x.ascent ∧
    info.descent = (given .descent).getD x.descent ∧
    (x = ⟨info.ascent, info.descent⟩ ↔
      (∀ a ∈ cfg.ascent, ∀ v ∈ given .ascent, v = a) ∧
      (∀ d ∈ cfg.descent, ∀ v ∈ given .descent, v = d)) := by
  intro info x given
  have hpredicts := predicts_follow e engine cfg encoding
    (fun k (hk : k ∈ Script.ofRecords records) => Script.exists_construct hk) hglyphs
  rw [Extents.Scan.foldl_after, hheads, ← Extents.Scan.foldl_after] at hpredicts
  obtain ⟨hascent, hdescent⟩ := hpredicts
  rw [Extents.lastGiven_filter cfg (.inl rfl), hheads, ← Extents.lastGiven_filter cfg (.inl rfl)]
    at hascent
  rw [Extents.lastGiven_filter cfg (.inr rfl), hheads, ← Extents.lastGiven_filter cfg (.inr rfl)]
    at hdescent
  have hx : x = _ := Extents.value_scan cfg records
  refine ⟨?_, ?_, ?_⟩
  · rw [hx]
    exact hascent.value_eq
  · rw [hx]
    exact hdescent.value_eq
  · rw [hx, Extents.mk.injEq]
    exact and_congr hascent.agree_iff hdescent.agree_iff

/-- A font of one glyph whose settings and whose own descent agree. -/
theorem scan_eq_run_of_letter :
    let cfg : Settings := { descent := some 300, extensions := { font := true } }
    let records : List Record :=
      [⟨"picture", none, "\"p\""⟩,
        ⟨"shipout", none, "10>> 65>> 0>> 65>> 70>> 2>> 0>> 0>> 0>> 0>> 0"⟩, ⟨"pic", none, "\"p\""⟩,
        ⟨"font_descent", none, "10>> 30"⟩]
    let s := State.initial () cfg .unicode
    let script := Script.ofRecords records
    let info := (s.run Engine.basic cfg records).value.font.info
    (script.map (·.head)).filter (Extents.counts cfg) = records.filter (Extents.counts cfg) ∧
    (∀ before k after, script = before ++ k :: after → k.head.op = .shipout →
      (k.glyph? cfg (s.follow Engine.basic cfg before).value).isSome) ∧
    (Extents.scan cfg records).value = ⟨info.ascent, info.descent⟩ ∧
    (Extents.scan cfg records).value = ⟨700, 300⟩ := by
  intro cfg records s script info
  have hheads : (script.map (·.head)).filter (Extents.counts cfg) =
      records.filter (Extents.counts cfg) := by decide +kernel
  have hplaces : ∀ i < script.length, (script[i]?).all (fun k => k.head.op != .shipout ||
      (k.glyph? cfg (s.follow Engine.basic cfg (script.take i)).value).isSome) = true := by
    decide +kernel
  have hglyphs : ∀ before k after, script = before ++ k :: after → k.head.op = .shipout →
      (k.glyph? cfg (s.follow Engine.basic cfg before).value).isSome := by
    intro before k after hscript hk
    have hplace := hplaces before.length (by rw [hscript]; simp)
    simpa [hscript, hk] using hplace
  have hgiven : (∀ a ∈ cfg.ascent, ∀ v ∈ Extents.lastGiven cfg .ascent records, v = a) ∧
      (∀ d ∈ cfg.descent, ∀ v ∈ Extents.lastGiven cfg .descent records, v = d) := by
    decide +kernel
  obtain ⟨-, -, hiff⟩ := scan_eq_run_iff Engine.basic () cfg .unicode records hheads hglyphs
  exact ⟨hheads, hglyphs, hiff.mpr hgiven, by decide +kernel⟩

/-- A font with another ascent than the one that the settings fix. -/
theorem scan_ne_run_of_ascent :
    let cfg : Settings := { ascent := some 250, extensions := { font := true } }
    let records : List Record := [⟨"font_ascent", none, "10>> 80"⟩]
    let info := ((State.initial () cfg .unicode).run Engine.basic cfg records).value.font.info
    (Script.ofRecords records).map (·.head) = records ∧
    (∀ r ∈ records, r.op ≠ .shipout ∧ (Extents.scaledOperand r).isOk) ∧
    (Extents.scan cfg records).value = ⟨250, 0⟩ ∧ info.ascent = 800 ∧
    (Extents.scan cfg records).value ≠ ⟨info.ascent, info.descent⟩ := by
  decide +kernel

end FontTrace
