import Typewriter.Proofs.Performance.Indicators
import Typewriter.Proofs.Performance.Traversal
import Typewriter.Proofs.Performance.Unbroken
import Typewriter.Proofs.Script.Sayings
import Typewriter.Proofs.Spoken

/-!
# Rounds

A reader who never cuts a line short sees a script in rounds: he waits until no alarm is pending,
then he asks to go on.  The rounds show the spoken lines one after the other, each under the last
alert before it, and in the end the closing text.

`Halts` says where walking on leads once the pauses on the way are over, and `Halted` where a round
does.  The main statement is `frame_of_round`, from the arguments and the source of a script to the
frames.
-/

namespace Typewriter

namespace Performance

variable {p q r : Performance} {line : String} {position round : Nat}

/-! ## Walking on until no alarm is pending -/

/-- Where walking on from a position leads once the pauses on the way are over: to the next spoken
line or to the end, past calls of the alert. -/
inductive Halts (p : Performance) (position : Nat) (q : Performance) : Prop where
  | line (calls : List String) (line : String)
      (spokenLines_eq : spokenLines p.setup.delimiter calls = [])
      (isSpoken_eq : isSpoken p.setup.delimiter line = true)
      (textsFrom_eq : p.script.textsFrom position =
        calls ++ line :: p.script.textsFrom (q.cursor + 1))
      (alerts_eq : Event.alerts q.log = Event.alerts p.log ++ alertCalls p.setup.delimiter calls)
      (mode : q.Shown line)
  | ended
      (spokenLines_eq : spokenLines p.setup.delimiter (p.script.textsFrom position) = [])
      (alerts_eq : Event.alerts q.log =
        Event.alerts p.log ++ alertCalls p.setup.delimiter (p.script.textsFrom position))
      (mode : q.Ended)

/-- Calls of the alert may stand in front. -/
theorem Halts.prepend {earlier : Performance} {before : List String} {start : Nat}
    (hhalts : Halts p position q) (hsetup : p.setup = earlier.setup)
    (hscript : p.script = earlier.script)
    (hspoken : spokenLines earlier.setup.delimiter before = [])
    (htexts : earlier.script.textsFrom start = before ++ earlier.script.textsFrom position)
    (halerts : Event.alerts p.log =
      Event.alerts earlier.log ++ alertCalls earlier.setup.delimiter before) :
    Halts earlier start q := by
  cases hhalts with
  | line calls line hcalls hline htexts' halerts' hshown =>
      rw [hsetup] at hcalls hline halerts'
      rw [hscript] at htexts'
      refine .line (before ++ calls) line ?_ hline ?_ ?_ hshown
      · rw [spokenLines_append, hspoken, hcalls, List.append_nil]
      · rw [htexts, htexts', List.append_assoc]
      · rw [halerts', halerts, alertCalls_append, List.append_assoc]
  | ended hcalls halerts' hended =>
      rw [hsetup, hscript] at hcalls halerts'
      refine .ended ?_ ?_ hended
      · rw [htexts, spokenLines_append, hspoken, hcalls, List.append_nil]
      · rw [halerts', halerts, htexts, alertCalls_append, List.append_assoc]

theorem alerts_completion (p : Performance) : Event.alerts p.completion = [] := by
  unfold completion
  split
  · rfl
  · rfl

/-- After walking on, the pending alarms can be rung until there is none. -/
theorem exists_drainsTo_of_walkOn {p r : Performance} {position : Nat} (hplain : p.setup.Plain)
    (hlength : p.script.length ≤ maxPosition) (hbetween : p.Between position)
    (hwalk : p.walkOn position = .ok r) :
    ∃ q, DrainsTo r q ∧ q.setup = p.setup ∧ q.script = p.script ∧ Halts p position q := by
  have harrival : Arrival p position r := arrival_of_walkOn hwalk
  obtain ⟨hsetup, hscript, -, -⟩ := harrival.record_eq
  obtain ⟨calls, hspoken, hevents, hpasses⟩ :=
    Script.exists_passes hplain hlength p.asked position
  have halerts : Event.alerts r.log =
      Event.alerts p.log ++ alertCalls p.setup.delimiter calls := by
    rw [harrival.log_eq hbetween.phase_ne_ended, Event.alerts_append, Event.alerts_append,
      alerts_completion, List.append_nil, walkFrom, hevents]
  have hwithin := p.script.walkFrom_stop_within p.setup.handler p.asked position
  have hplace := harrival.place hbetween
  rw [← walkFrom] at hpasses hwithin
  generalize (p.walkFrom position).stop = stop at hpasses hwithin hplace
  cases hplace with
  | line line hstage =>
      obtain ⟨text, hline, htext, htexts⟩ := hpasses
      obtain rfl : line = text := by
        have hstaged := hstage.lineAt?_eq
        rw [hscript, hline] at hstaged
        exact (Option.some.inj hstaged).symm
      obtain ⟨q, hdrains, hshown, hcursor, hsame⟩ :=
        exists_drainsTo_of_onStage hstage (hsetup ▸ hplain.fits)
      refine ⟨q, hdrains, hsame.setup_eq.trans hsetup, hsame.script_eq.trans hscript,
        .line calls line hspoken htext ?_ ?_ hshown⟩
      · rw [hcursor]
        exact htexts
      · rw [hsame.log_eq]
        exact halerts
  | pause at_ alarm hpaused =>
      -- The alarm of the pause rings, and the walk goes on behind it.
      have hlt : at_ < r.script.length := (List.getElem?_eq_some_iff.mp hpaused.pause_eq).1
      have hplain' : r.cancel.setup.Plain := hsetup ▸ hplain
      have hlength' : r.cancel.script.length ≤ maxPosition := hscript ▸ hlength
      obtain ⟨_, hle, hsucc, -⟩ := hwithin
      obtain ⟨next, hnext⟩ := exists_walkOn hplain'.fits (at_ + 1)
      obtain ⟨q, hdrains, hsetup', hscript', hhalts⟩ :=
        exists_drainsTo_of_walkOn hplain' hlength' hpaused.between_resumed hnext
      refine ⟨q, .ring hpaused.pending_eq (hpaused.ring_eq.trans hnext) hdrains,
        hsetup'.trans hsetup, hscript'.trans hscript, ?_⟩
      exact hhalts.prepend hsetup hscript hspoken hpasses halerts
  | ending hended =>
      have htexts : p.script.textsFrom position = calls := hpasses
      subst htexts
      exact ⟨r, .done hended.pending_eq, hsetup, hscript, .ended hspoken halerts hended⟩
termination_by p.script.length - position
decreasing_by
  show r.script.length - (at_ + 1) < p.script.length - position
  have hlength : r.script.length = p.script.length := congrArg List.length hscript
  omega

/-! ## Rounds -/

/-- The performance at the end of a round: in the first the script starts, in every later one the
reader asks to go on, and then alarms ring until none is pending. -/
inductive Round (setup : Setup) (script : Script) : Nat → Performance → Prop where
  | first {p q : Performance} (start_eq : start setup script = .ok p) (drains : DrainsTo p q) :
      Round setup script 0 q
  | next {round : Nat} {p q r : Performance} (before : Round setup script round p)
      (advance_eq : p.advance = .ok r) (drains : DrainsTo r q) : Round setup script (round + 1) q

/-- The end of a round is unique. -/
theorem Round.eq {setup : Setup} {script : Script} (hp : Round setup script round p)
    (hq : Round setup script round q) : p = q := by
  induction hp generalizing q with
  | first hstart hdrains =>
      cases hq with
      | first hstart' hdrains' =>
          obtain rfl := Except.ok.inj (hstart.symm.trans hstart')
          exact hdrains.eq hdrains'
  | next _ hadvance hdrains ih =>
      cases hq with
      | next before' hadvance' hdrains' =>
          obtain rfl := ih before'
          obtain rfl := Except.ok.inj (hadvance.symm.trans hadvance')
          exact hdrains.eq hdrains'

/-- What stands at the end of a round: the spoken line with as many spoken ones before it, or the
end if there are no more. -/
inductive Halted (setup : Setup) (script : Script) (round : Nat) (q : Performance) : Prop where
  | line (before : List String) (line : String)
      (textsFrom_eq : script.textsFrom 0 = before ++ line :: script.textsFrom (q.cursor + 1))
      (isSpoken_eq : isSpoken setup.delimiter line = true)
      (length_eq : (spokenLines setup.delimiter before).length = round)
      (alerts_eq : Event.alerts q.log = alertCalls setup.delimiter before)
      (mode : q.Shown line)
  | ended (length_le : (spokenLines setup.delimiter (script.textsFrom 0)).length ≤ round)
      (alerts_eq : Event.alerts q.log = alertCalls setup.delimiter (script.textsFrom 0))
      (mode : q.Ended)

theorem Halts.halted (hhalts : Halts p position q) (before : List String)
    (htexts : p.script.textsFrom 0 = before ++ p.script.textsFrom position)
    (hround : (spokenLines p.setup.delimiter before).length = round)
    (halerts : Event.alerts p.log = alertCalls p.setup.delimiter before) :
    Halted p.setup p.script round q := by
  cases hhalts with
  | line calls line hcalls hline htexts' halerts' hshown =>
      refine .line (before ++ calls) line ?_ hline ?_ ?_ hshown
      · rw [htexts, htexts', List.append_assoc]
      · rw [spokenLines_append, hcalls, List.append_nil, hround]
      · rw [halerts', halerts, alertCalls_append]
  | ended hcalls halerts' hended =>
      refine .ended ?_ ?_ hended
      · rw [htexts, spokenLines_append, hcalls, List.append_nil]
        exact Nat.le_of_eq hround
      · rw [halerts', halerts, htexts, alertCalls_append]

/-- Every round comes to its end. -/
theorem exists_round {setup : Setup} {script : Script} (hplain : setup.Plain)
    (hlength : script.length ≤ maxPosition) (round : Nat) :
    ∃ q, Round setup script round q ∧ q.setup = setup ∧ q.script = script ∧
      Halted setup script round q := by
  induction round with
  | zero =>
      have hinitial : ({ setup, script } : Performance).setup.Plain := hplain
      obtain ⟨p, hstart⟩ := exists_walkOn hinitial.fits 0
      obtain ⟨q, hdrains, hsetup, hscript, hhalts⟩ :=
        exists_drainsTo_of_walkOn hinitial hlength (between_initial setup script) hstart
      have hhalted := hhalts.halted [] (List.nil_append _).symm rfl rfl
      exact ⟨q, .first hstart hdrains, hsetup, hscript, hhalted⟩
  | succ round ih =>
      obtain ⟨p, hround, rfl, rfl, hhalted⟩ := ih
      cases hhalted with
      | line before line htexts hline hcount halerts hshown =>
          obtain ⟨r, hr⟩ := exists_walkOn hplain.fits (p.cursor + 1)
          obtain ⟨q, hdrains, hsetup, hscript, hhalts⟩ :=
            exists_drainsTo_of_walkOn hplain hlength hshown.between hr
          refine ⟨q, .next hround (hshown.advance_eq.trans hr) hdrains, hsetup, hscript, ?_⟩
          -- The line of the round before is the last of those that are left behind.
          refine hhalts.halted (before ++ [line]) ?_ ?_ ?_
          · rw [htexts, List.append_assoc]
            rfl
          · rw [spokenLines_append, spokenLines_cons hline, List.length_append, hcount]
            rfl
          · rw [halerts, alertCalls_append, alertCalls_singleton hline, List.append_nil]
      | ended hle halerts hended =>
          exact ⟨p, .next hround hended.advance_eq (.done hended.pending_eq), rfl, rfl,
            .ended (Nat.le_succ_of_le hle) halerts hended⟩

/-! ## Frames -/

theorem Shown.frame_eq (hshown : p.Shown line) :
    p.frame = Screen.clearSequence ++ Screen.bannerLine (Event.alerts p.log).getLast? ++ line ++
      Screen.moreSign := by
  have hphase : p.screen.phase ≠ .typing := by simp [screen, hshown.phase_eq]
  have hdisplay : p.screen.display = line :=
    (Screen.display_of_phase_ne hphase).trans hshown.shown_eq
  have hmore : p.screen.hasMore = true ∧ p.screen.live = true := by
    simp [Screen.hasMore, screen, hshown.phase_eq, hshown.live_eq]
  rw [frame, Screen.frame, hdisplay, if_pos hmore]
  rfl

theorem Ended.frame_eq (hended : p.Ended) :
    p.frame =
      Screen.clearSequence ++ Screen.bannerLine (Event.alerts p.log).getLast? ++ p.shown := by
  have hphase : p.screen.phase ≠ .typing := by simp [screen, hended.phase_eq]
  have hdisplay : p.screen.display = p.shown := Screen.display_of_phase_ne hphase
  have hmore : ¬ (p.screen.hasMore = true ∧ p.screen.live = true) := by
    simp [Screen.hasMore, screen, hended.phase_eq]
  rw [frame, Screen.frame, hdisplay, if_neg hmore, String.append_empty]
  rfl

/-- What is seen at the end of a round that is not behind the last line. -/
theorem Halted.frame_of_getElem? {setup : Setup} {script : Script}
    (hhalted : Halted setup script round q)
    (hget : (spokenLines setup.delimiter (script.textsFrom 0))[round]? = some line) :
    ∃ before after, script.textsFrom 0 = before ++ line :: after ∧
      spokenLines setup.delimiter before =
        (spokenLines setup.delimiter (script.textsFrom 0)).take round ∧
      q.frame = Screen.clearSequence ++
        Screen.bannerLine (alertCalls setup.delimiter before).getLast? ++ line ++
        Screen.moreSign := by
  cases hhalted with
  | line before spoken htexts hspoken hcount halerts hshown =>
      have hlines : spokenLines setup.delimiter (script.textsFrom 0) =
          spokenLines setup.delimiter before ++
            spoken :: spokenLines setup.delimiter (script.textsFrom (q.cursor + 1)) := by
        rw [htexts, spokenLines_append, spokenLines_cons hspoken]
      obtain rfl : spoken = line := by
        rw [hlines, ← hcount, List.getElem?_append_right (Nat.le_refl _), Nat.sub_self] at hget
        exact Option.some.inj hget
      refine ⟨before, _, htexts, ?_, ?_⟩
      · rw [hlines]
        exact (List.take_left' hcount).symm
      · rw [hshown.frame_eq, halerts]
  | ended hle _ _ =>
      rw [List.getElem?_eq_none hle] at hget
      contradiction

/-- Behind a line of a round there is one more spoken line than rounds. -/
theorem lt_length_spokenLines {delimiter : Option String} {texts before after : List String}
    (htexts : texts = before ++ line :: after) (hline : isSpoken delimiter line = true)
    (hcount : (spokenLines delimiter before).length = round) :
    round < (spokenLines delimiter texts).length := by
  rw [htexts, ← hcount]
  exact length_spokenLines_lt hline before after

/-- What is seen at the end of a round behind the last line. -/
theorem Halted.frame_of_length_le {setup : Setup} {script : Script}
    (hhalted : Halted setup script round q) (hend : q.setup.announcesEnd = false)
    (hle : (spokenLines setup.delimiter (script.textsFrom 0)).length ≤ round) :
    q.frame = Screen.clearSequence ++
      Screen.bannerLine (alertCalls setup.delimiter (script.textsFrom 0)).getLast? ++
      closingText := by
  cases hhalted with
  | line before line htexts hline hcount _ _ =>
      exact absurd hle (Nat.not_le.mpr (lt_length_spokenLines htexts hline hcount))
  | ended _ halerts hended => rw [hended.frame_eq, halerts, hended.shown_eq hend]

/-- What stands at the end of a round, and under which alerts, is fixed by the lines of the script
and the delimiter. -/
theorem Halted.frame_eq_frame {setup setup' : Setup} {script : Script}
    (hdelimiter : setup'.delimiter = setup.delimiter) (hend : p.setup.announcesEnd = false)
    (hend' : q.setup.announcesEnd = false) (hp : Halted setup script round p)
    (hq : Halted setup' script round q) : q.frame = p.frame := by
  cases hp with
  | line before line htexts hline hcount halerts hshown =>
      cases hq with
      | line before' line' htexts' hline' hcount' halerts' hshown' =>
          rw [hdelimiter] at hline' hcount' halerts'
          obtain ⟨rfl, rfl⟩ := eq_of_length_spokenLines_eq hline hline' (htexts.symm.trans htexts')
            (hcount.trans hcount'.symm)
          rw [hshown.frame_eq, hshown'.frame_eq, halerts, halerts']
      | ended hle' _ _ =>
          rw [hdelimiter] at hle'
          exact absurd hle' (Nat.not_le.mpr (lt_length_spokenLines htexts hline hcount))
  | ended hle halerts hended =>
      cases hq with
      | line before' line' htexts' hline' hcount' _ _ =>
          rw [hdelimiter] at hline' hcount'
          exact absurd hle (Nat.not_le.mpr (lt_length_spokenLines htexts' hline' hcount'))
      | ended _ halerts' hended' =>
          rw [hdelimiter] at halerts'
          rw [hended.frame_eq, hended'.frame_eq, halerts, halerts', hended.shown_eq hend,
            hended'.shown_eq hend']

/-- Played from the command line, every script shows in its rounds the lines of its source that do
not call the alert, in their order, each in full under the message of the last call that stands
before it.  From the round behind the last line on it shows the closing text, under the last
message of all.  So it is for every choice of speed, jitter, rests and marker, and whatever the
draws for the jitter; each round comes to its end, and to one only.  Whoever reads the arguments has
to read rests as `readRest` does, and no more is asked of him.

Positions are numbers of 64 bits, so a source with more characters than these can count is left
out. -/
theorem frame_of_round {reader : List String → Except Options.Refusal Options}
    (hreader : Options.ReadsRests reader) {arguments : List String} {options : Options}
    {source : String} {script : Script} (hoptions : reader arguments = .ok options)
    (hread : Script.read source = .ok script) (hsource : source.length ≤ maxPosition)
    (noise : Nat → Nat) (round : Nat) :
    ∃ q, Round (options.setup.withNoise noise) script round q ∧
      (∀ r, Round (options.setup.withNoise noise) script round r → r = q) ∧
      (∀ line, (spokenLines options.delimiter (Script.sayings source))[round]? = some line →
        ∃ before after, Script.sayings source = before ++ line :: after ∧
          spokenLines options.delimiter before =
            (spokenLines options.delimiter (Script.sayings source)).take round ∧
          q.frame = Screen.clearSequence ++
            Screen.bannerLine (alertCalls options.delimiter before).getLast? ++ line ++
            Screen.moreSign) ∧
      ((spokenLines options.delimiter (Script.sayings source)).length ≤ round →
        q.frame = Screen.clearSequence ++
          Screen.bannerLine (alertCalls options.delimiter (Script.sayings source)).getLast? ++
          "Done!") ∧
      ∀ {arguments' options' noise' r}, reader arguments' = .ok options' →
        options'.delimiter = options.delimiter →
        Round (options'.setup.withNoise noise') script round r → r.frame = q.frame := by
  have hplain := Options.plain_of_areRead (hreader _ _ hoptions) noise
  have hlength : script.length ≤ maxPosition :=
    Nat.le_trans (Script.length_le_of_read hread) hsource
  have hsayings : script.textsFrom 0 = Script.sayings source :=
    Script.filterMap_text?_of_read hread
  obtain ⟨q, hround, hsetup, -, hhalted⟩ := exists_round hplain hlength round
  have hend : q.setup.announcesEnd = false := hsetup ▸ hplain.announcesEnd_eq
  rw [← hsayings]
  refine ⟨q, hround, fun r hr => hr.eq hround, fun line hline => hhalted.frame_of_getElem? hline,
    hhalted.frame_of_length_le hend, ?_⟩
  intro arguments' options' noise' r hoptions' hdelimiter hr
  have hplain' := Options.plain_of_areRead (hreader _ _ hoptions') noise'
  obtain ⟨q', hround', hsetup', -, hhalted'⟩ := exists_round hplain' hlength round
  obtain rfl := hr.eq hround'
  exact hhalted.frame_eq_frame hdelimiter hend (hsetup' ▸ hplain'.announcesEnd_eq) hhalted'

/-- A call, a pause and a line: the line under the message with the sign for more behind it, and
then the closing text under the message. -/
theorem frame_of_round_of_call :
    ∃ options script p q,
      Options.ofArguments ["--script", "a.script", "-d", "/"] = .ok options ∧
      Script.read "say \"/alert Look\"\nwait 5ms\nsay \"Hi\"\n" = .ok script ∧
      Round (options.setup.withNoise id) script 0 p ∧
      p.frame = "\x1b[2J\x1b[1;1H[!] Look\r\n\r\nHi  ▼" ∧
      Round (options.setup.withNoise id) script 1 q ∧
      q.frame = "\x1b[2J\x1b[1;1H[!] Look\r\n\r\nDone!" := by
  have hoptions : ∃ options, Options.ofArguments ["--script", "a.script", "-d", "/"] = .ok options ∧
      options.delimiter = some "/" := ⟨_, rfl, rfl⟩
  obtain ⟨options, hoptions, hdelimiter⟩ := hoptions
  have hread : ∃ script,
      Script.read "say \"/alert Look\"\nwait 5ms\nsay \"Hi\"\n" = .ok script := ⟨_, rfl⟩
  obtain ⟨script, hread⟩ := hread
  have hrounds := frame_of_round Options.readsRests_ofArguments hoptions hread (by decide) id
  obtain ⟨p, hfirst, -, hline, -⟩ := hrounds 0
  obtain ⟨q, hsecond, -, -, hended, -⟩ := hrounds 1
  rw [hdelimiter] at hline hended
  refine ⟨options, script, p, q, hoptions, hread, hfirst, ?_, hsecond, ?_⟩
  · obtain ⟨before, after, hsayings, -, hframe⟩ := hline "Hi" (by decide)
    have hboth : ["/alert Look", "Hi"] = before ++ "Hi" :: after :=
      Eq.trans (by decide) hsayings
    obtain ⟨rfl, -⟩ : before = ["/alert Look"] ∧ after = [] := by
      simpa [List.cons_eq_append_iff] using hboth
    exact hframe.trans (by decide)
  · exact (hended (by decide)).trans (by decide)

end Performance

end Typewriter
