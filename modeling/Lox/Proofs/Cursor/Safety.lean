import Lox.Proofs.Cursor.Agreement
import Lox.Proofs.Reporting.Agreement
import Lox.Proofs.Source.Tokenisation

/-!
# The cursor stops at the first end of the source

Programs and expressions may be asked for in any order on one parser, each time from where the call
before has left it, be that in the middle of the source. Whatever tokens it holds, its cursor moves
on one place at a time, never past the first end of the source, and nothing is open between two
calls. Every round of reading a program moves it on, so a program is read up to that end. What stands
beyond it, such as the ends that scanning once more adds, is never seen.
-/

namespace Lox

/-- What a parser answers when it is asked for a program or for an expression. -/
inductive Answer where
  /-- The statements, or what is wrong with them. -/
  | program (reading : ProgramReading)
  /-- The expression, or what is wrong with it. -/
  | expression (result : Except SyntaxFault Expr)

/-- How one of several calls on a parser went. -/
structure Turn where
  /-- What the parser answered. -/
  answer : Answer
  /-- The place it has come to. -/
  current : Nat
  /-- The sink with what was reported up to then. -/
  sink : Sink

namespace Parser

/-- The place of the first end of the source in a token list. -/
def firstEnd (tokens : List Token) : Nat := tokens.findIdx Token.isEnd

/-- Ask a parser that reports to a sink for a program or for an expression. -/
def answerTo (sink : Sink) (parser : Parser) : Mode → (Answer × Parser) × Sink
  | .program =>
    let ((reading, next), sink) := parser.programTo sink
    ((.program reading, next), sink)
  | .expression =>
    let ((result, next), sink) := parser.expressionTo sink
    ((.expression result, next), sink)

/-- Ask a parser for one thing after the other. -/
def turns (sink : Sink) (parser : Parser) : List Mode → List Turn
  | [] => []
  | mode :: modes =>
    let ((answer, next), sink) := parser.answerTo sink mode
    ⟨answer, next.current, sink⟩ :: next.turns sink modes

end Parser

namespace Walk

variable (tokens : List Token) (options : ReadingOptions)

/-- Ask for a program or for an expression. -/
def call (room : Nat) : Mode → Walk Answer
  | .program => return .program (← program tokens options room)
  | .expression => return .expression (← wholeExpression tokens options room)

/-- Ask for one thing after the other, with the cursor that each call leaves. -/
def calls (room : Nat) : List Mode → Walk (List (Answer × Cursor))
  | [] => return []
  | mode :: modes => do
    let answer ← call tokens options room mode
    let cursor ← get
    return (answer, cursor) :: (← calls room modes)

end Walk

namespace Cursor

/-- The cursor that has come from the start to a place, with nothing open. -/
def arrived (place : Nat) : Cursor := ⟨place, 0, (List.range (place + 1)).reverse⟩

/-- A cursor between two calls. -/
structure Settled (limit : Nat) (cursor : Cursor) : Prop where
  /-- Nothing is open. -/
  closed : cursor.depth = 0
  /-- The limit is not passed. -/
  within : cursor.current ≤ limit
  /-- The cursor has stood at the places from the first one to the current one in this order. -/
  forward : cursor.trail.reverse = List.range (cursor.current + 1)

/-- A cursor that has come from the start to a place within the limit is settled. -/
theorem settled_arrived {limit place : Nat} (h : place ≤ limit) : (arrived place).Settled limit :=
  ⟨rfl, h, List.reverse_reverse _⟩

end Cursor

namespace Track

variable {tokens : List Token}

/-- The track of a cursor that has not passed the first end of the source. -/
def ofCursor {ahead : List Token} {stop : Token} (hstop : stop.isEnd = true)
    (hahead : ∀ token ∈ ahead, token.isEnd = false) (beyond : List Token) (cursor : Cursor)
    (hle : cursor.current ≤ ahead.length) : Track (ahead ++ stop :: beyond) cursor where
  ahead := ahead.drop cursor.current
  stop := stop
  beyond := beyond
  source := List.drop_append_of_le_length hle
  stop_isEnd := hstop
  ahead_isEnd token hmem := hahead token (List.mem_of_mem_drop hmem)

/-- With nothing open, the cursor has moved as far as tokens are taken. -/
theorem before_eq_moved {origin : Cursor} (track : Track tokens origin)
    (hclosed : origin.depth = 0) (rest : List Token) :
    track.before 0 rest = origin.moved (track.ahead.length - rest.length) := by
  rw [before, ← hclosed]
  rfl

/-- From the start, the cursor has come as far as tokens are taken. -/
theorem before_eq_arrived (track : Track tokens Cursor.start) (rest : List Token) :
    track.before 0 rest = Cursor.arrived (track.ahead.length - rest.length) := by
  generalize hdistance : track.ahead.length - rest.length = distance
  have hrange : List.range (distance + 1) = [0] ++ List.range' 1 distance := by
    rw [List.range_eq_range', List.range'_succ]
    rfl
  rw [before, hdistance, Cursor.arrived, hrange, List.reverse_append]
  simp [Cursor.moved, Cursor.start]

end Track

namespace Parser

/-- A parser that has come some way on a track. -/
structure OnTrack {tokens : List Token} (track : Track tokens Cursor.start) (parser : Parser) :
    Prop where
  /-- The tokens are those of the track. -/
  tokens_eq : parser.tokens = tokens
  /-- So is the end of the source. -/
  stop_eq : parser.stop = track.stop
  /-- What is left to read is the end of what was ahead. -/
  rest_suffix : parser.rest <:+ track.ahead

section

variable {tokens : List Token} {track : Track tokens Cursor.start} {parser : Parser} {room : Nat}

/-- A walk reads a program as the parser does and leaves the cursor at the end of the source. -/
theorem OnTrack.program_run (h : parser.OnTrack track)
    (hroom : 12 * (track.ahead.length + 1) ≤ room) :
    (Walk.program tokens parser.options room).run (track.before 0 parser.rest) =
      some (parser.program.1, track.before 0 []) := by
  have hle := h.rest_suffix.length_le
  have hrounds : (Walk.rounds tokens parser.options [] [] room).run
      (track.before 0 parser.rest) = _ :=
    Walk.rounds_before h.rest_suffix (by omega) [] []
  rw [← h.stop_eq] at hrounds
  rw [Walk.program, Walk.run_bind_of hrounds]
  rfl

/-- A walk reads an expression as the parser does and leaves the cursor where the parser is. -/
theorem OnTrack.expression_run (h : parser.OnTrack track)
    (hroom : 12 * (track.ahead.length + 1) ≤ room) :
    (Walk.wholeExpression tokens parser.options room).run (track.before 0 parser.rest) =
      some (parser.expression.1, track.before 0 parser.expression.2.rest) := by
  have hle := h.rest_suffix.length_le
  have hadvances := (Reader.expression parser.stop parser.options.allowance).advances parser.rest
  have hvalue := Walk.expression_follows track parser.options.allowance parser.rest room
    h.rest_suffix (by omega)
  rw [← h.stop_eq] at hvalue
  rw [Walk.wholeExpression, expression]
  cases hrun : (Reader.expression parser.stop parser.options.allowance).run parser.rest with
  | refused fault after =>
    rw [hrun] at hvalue
    rw [Walk.run_bind_of hvalue]
    rfl
  | accepted value after =>
    rw [hrun] at hvalue hadvances
    have hafter := hadvances.1.trans h.rest_suffix
    rw [Walk.run_bind_of hvalue]
    cases after with
    | nil => exact Walk.run_then (Walk.isAtEnd_before hafter)
    | cons token others =>
      refine (Walk.run_else (Walk.isAtEnd_before hafter)).trans ?_
      rw [Walk.run_bind_of (Walk.peek_before hafter)]
      rfl

/-- Asking for a program reports its faults. -/
theorem answerTo_program (sink : Sink) (parser : Parser) :
    parser.answerTo sink .program =
      ((.program parser.program.1, parser.program.2), (parser.programTo sink).2) := by
  rw [answerTo, programTo_eq]

/-- Asking for an expression reports its fault. -/
theorem answerTo_expression (sink : Sink) (parser : Parser) :
    parser.answerTo sink .expression =
      ((.expression parser.expression.1, parser.expression.2), (parser.expressionTo sink).2) := by
  rw [answerTo, expressionTo_eq]

/-- A call keeps everything about a parser but what is left to read, and that gets no longer. -/
theorem answerTo_next (sink : Sink) (parser : Parser) (mode : Mode) :
    ∃ rest, rest <:+ parser.rest ∧
      (parser.answerTo sink mode).1.2 = { parser with rest := rest } := by
  cases mode with
  | program =>
    rw [answerTo_program]
    exact ⟨[], List.nil_suffix, rfl⟩
  | expression =>
    have hadvances := (Reader.expression parser.stop parser.options.allowance).advances parser.rest
    rw [answerTo_expression, expression]
    cases hrun : (Reader.expression parser.stop parser.options.allowance).run parser.rest with
    | refused fault after =>
      rw [hrun] at hadvances
      exact ⟨after, hadvances, rfl⟩
    | accepted value after =>
      rw [hrun] at hadvances
      cases after with
      | nil => exact ⟨[], List.nil_suffix, rfl⟩
      | cons token others => exact ⟨token :: others, hadvances.1, rfl⟩

/-- A call keeps a parser on its track. -/
theorem OnTrack.answerTo (h : parser.OnTrack track) (sink : Sink) (mode : Mode) :
    (parser.answerTo sink mode).1.2.OnTrack track := by
  obtain ⟨rest, hrest, hnext⟩ := answerTo_next sink parser mode
  rw [hnext]
  exact ⟨h.tokens_eq, h.stop_eq, hrest.trans h.rest_suffix⟩

/-- A walk answers a call as the parser does and leaves the cursor where the parser is. -/
theorem OnTrack.call_run (h : parser.OnTrack track)
    (hroom : 12 * (track.ahead.length + 1) ≤ room) (sink : Sink) (mode : Mode) :
    (Walk.call tokens parser.options room mode).run (track.before 0 parser.rest) =
      some ((parser.answerTo sink mode).1.1,
        track.before 0 (parser.answerTo sink mode).1.2.rest) := by
  cases mode with
  | program =>
    rw [answerTo_program, Walk.call, Walk.run_bind_of (h.program_run hroom)]
    rfl
  | expression =>
    rw [answerTo_expression, Walk.call, Walk.run_bind_of (h.expression_run hroom)]
    rfl

/-- What stands before the first end of the source does not depend on what stands beyond it. -/
theorem body_append_cons {ahead : List Token} {stop : Token} (hstop : stop.isEnd = true)
    (hahead : ∀ token ∈ ahead, token.isEnd = false) (beyond : List Token) :
    body (ahead ++ stop :: beyond) = ahead := by
  rw [body, List.takeWhile_append_of_pos]
  · simp [hstop]
  · intro token hmem
    rw [hahead token hmem]
    rfl

/-- A parser on a track has come as far as tokens are taken. -/
theorem OnTrack.current_eq (h : parser.OnTrack track) :
    parser.current = track.ahead.length - parser.rest.length := by
  have hsource : tokens = track.ahead ++ track.stop :: track.beyond := track.source
  have hbody : body tokens = track.ahead :=
    (congrArg body hsource).trans (body_append_cons track.stop_isEnd track.ahead_isEnd _)
  rw [current, h.tokens_eq, hbody]

/-- The cursor for a parser on a track has come from the start to where the parser is. -/
theorem OnTrack.before_eq (h : parser.OnTrack track) :
    track.before 0 parser.rest = Cursor.arrived parser.current := by
  rw [track.before_eq_arrived, h.current_eq]

/-- Calls on a walk are answered as by the parser, and the cursor is where the parser is after each
of them. -/
theorem OnTrack.calls_run (h : parser.OnTrack track)
    (hroom : 12 * (track.ahead.length + 1) ≤ room) (sink : Sink) (modes : List Mode) :
    (Walk.calls tokens parser.options room modes).run (Cursor.arrived parser.current) =
      some ((parser.turns sink modes).map fun turn => (turn.answer, Cursor.arrived turn.current),
        Cursor.arrived (((parser.turns sink modes).map Turn.current).getLastD parser.current)) := by
  induction modes generalizing parser sink with
  | nil => rfl
  | cons mode modes ih =>
    have hnext := h.answerTo sink mode
    have hcall := h.call_run hroom sink mode
    obtain ⟨rest, -, hparser⟩ := answerTo_next sink parser mode
    have hoptions : (parser.answerTo sink mode).1.2.options = parser.options := by rw [hparser]
    have hcalls := ih hnext (parser.answerTo sink mode).2
    rw [h.before_eq, hnext.before_eq] at hcall
    rw [hoptions] at hcalls
    rw [Walk.calls, Walk.run_bind_of hcall, Walk.run_bind_of (by rfl), Walk.run_bind_of hcalls,
      turns, List.map_cons, List.map_cons, List.getLastD_cons]
    rfl

/-- Every call has its turn. -/
theorem length_turns (sink : Sink) (parser : Parser) (modes : List Mode) :
    (parser.turns sink modes).length = modes.length := by
  induction modes generalizing parser sink with
  | nil => rfl
  | cons mode modes ih => exact congrArg (· + 1) (ih _ _)

/-- No call takes a parser past the end of the source, and one for a program takes it there. -/
theorem OnTrack.turns_current (h : parser.OnTrack track) (sink : Sink) (modes : List Mode) :
    (∀ turn ∈ parser.turns sink modes, turn.current ≤ track.ahead.length) ∧
      ∀ pair ∈ modes.zip (parser.turns sink modes),
        pair.1 = .program → pair.2.current = track.ahead.length := by
  induction modes generalizing parser sink with
  | nil => exact ⟨List.forall_mem_nil _, List.forall_mem_nil _⟩
  | cons mode modes ih =>
    have hnext := h.answerTo sink mode
    obtain ⟨hle, hprogram⟩ := ih hnext (parser.answerTo sink mode).2
    refine ⟨List.forall_mem_cons.mpr ⟨hnext.current_eq ▸ Nat.sub_le _ _, hle⟩,
      List.forall_mem_cons.mpr ⟨?_, hprogram⟩⟩
    rintro rfl
    refine hnext.current_eq.trans ?_
    rw [answerTo_program]
    rfl

/-- What stands beyond the first end of the source has no part in an answer. -/
theorem answerTo_tokens (sink : Sink) (parser : Parser) (tokens : List Token) (mode : Mode) :
    { parser with tokens := tokens }.answerTo sink mode =
      (((parser.answerTo sink mode).1.1, { (parser.answerTo sink mode).1.2 with tokens := tokens }),
        (parser.answerTo sink mode).2) := by
  cases mode with
  | program => rfl
  | expression =>
    simp only [answerTo_expression, expressionTo_eq, expression]
    cases (Reader.expression parser.stop parser.options.allowance).run parser.rest with
    | refused fault after => rfl
    | accepted value after => cases after <;> rfl

/-- What stands beyond the first end of the source has no part in any number of answers. -/
theorem turns_tokens (parser : Parser) {tokens : List Token}
    (hbody : body tokens = body parser.tokens) (sink : Sink) (modes : List Mode) :
    { parser with tokens := tokens }.turns sink modes = parser.turns sink modes := by
  induction modes generalizing parser sink with
  | nil => rfl
  | cons mode modes ih =>
    obtain ⟨rest, -, hparser⟩ := answerTo_next sink parser mode
    have hsame : body tokens = body (parser.answerTo sink mode).1.2.tokens := by
      rw [hbody, hparser]
    rw [turns, turns, answerTo_tokens]
    dsimp only
    rw [ih _ hsame, current, current, hsame]

/-- The first end of the source stands behind what stands before it. -/
theorem firstEnd_append_cons {ahead : List Token} {stop : Token} (hstop : stop.isEnd = true)
    (hahead : ∀ token ∈ ahead, token.isEnd = false) (beyond : List Token) :
    firstEnd (ahead ++ stop :: beyond) = ahead.length := by
  induction ahead with
  | nil => simp [firstEnd, List.findIdx_cons, hstop]
  | cons token ahead ih =>
    obtain ⟨htoken, hahead⟩ := List.forall_mem_cons.mp hahead
    simpa [firstEnd, List.findIdx_cons, htoken] using ih hahead

/-- A token list makes a parser if its last token is an end of the source. -/
theorem exists_ofTokens (options : ReadingOptions) {tokens : List Token} {last : Token}
    (hlast : tokens.getLast? = some last) (hend : last.isEnd = true) :
    ∃ parser, ofTokens options tokens = .ok parser := by
  rw [ofTokens, hlast]
  simp only [hend, if_true]
  exact ⟨_, rfl⟩

/-- The last token of a list that makes a parser is an end of the source, so there is a first one. -/
theorem exists_append_of_ofTokens {options : ReadingOptions} {tokens : List Token}
    (h : ofTokens options tokens = .ok parser) :
    ∃ ahead stop beyond, tokens = ahead ++ stop :: beyond ∧ stop.isEnd = true ∧
      ∀ token ∈ ahead, token.isEnd = false := by
  rw [ofTokens] at h
  cases hlast : tokens.getLast? with
  | none =>
    rw [hlast] at h
    cases h
  | some last =>
    rw [hlast] at h
    cases hfind : tokens.find? Token.isEnd with
    | none =>
      have hno := List.find?_eq_none.mp hfind last (List.mem_of_getLast? hlast)
      simp only [hno, Bool.false_eq_true, if_false] at h
      cases h
    | some stop =>
      obtain ⟨hstop, ahead, beyond, htokens, hahead⟩ := List.find?_eq_some_iff_append.mp hfind
      exact ⟨ahead, stop, beyond, htokens, hstop, fun token hmem => by simpa using hahead token hmem⟩

end

end Parser

namespace Walk

variable {tokens : List Token} {origin : Cursor}

/-- A round moves the cursor on, and not past the end of the source. -/
theorem round_moves (options : ReadingOptions) (track : Track tokens origin)
    (hclosed : origin.depth = 0) (hahead : track.ahead ≠ []) :
    ∃ result distance, 0 < distance ∧ distance ≤ track.ahead.length ∧
      ∀ room, 12 * (track.ahead.length + 1) ≤ room →
        (round tokens options room).run origin = some (result, origin.moved distance) := by
  obtain ⟨token, rest, hcons⟩ := List.exists_cons_of_ne_nil hahead
  have hsuffix : token :: rest <:+ track.ahead := hcons ▸ List.suffix_refl _
  have hstart : track.before 0 (token :: rest) = origin := by
    rw [track.before_eq_moved hclosed, hcons, Nat.sub_self]
    rfl
  have hroom : ∀ room, 12 * (track.ahead.length + 1) ≤ room →
      12 * (token :: rest).length + 11 ≤ room := fun room hle => by
    rw [← hcons]
    omega
  have hadvances := Reader.statementRun_advances options track.stop (token :: rest)
  cases hrun : Reader.statementRun options track.stop (token :: rest) with
  | accepted statement after =>
    rw [hrun] at hadvances
    have hshorter : after.length < track.ahead.length := hcons ▸ hadvances.2
    refine ⟨.ok statement, _, Nat.sub_pos_of_lt hshorter, Nat.sub_le _ _, fun room hle => ?_⟩
    have hround := round_of_accepted hsuffix (hroom room hle) hrun
    rwa [hstart, track.before_eq_moved hclosed] at hround
  | refused fault left =>
    rw [hrun] at hadvances
    have hshorter : (Reader.resume left).length < track.ahead.length :=
      hcons ▸ Reader.length_resume_lt hadvances
    refine ⟨.error fault, _, Nat.sub_pos_of_lt hshorter, Nat.sub_le _ _, fun room hle => ?_⟩
    have hround := round_of_refused hsuffix (hroom room hle) hrun
    rwa [hstart, track.before_eq_moved hclosed] at hround

/-- A round that begins before the first end of the source with nothing open moves the cursor on,
but not past that end, and leaves nothing open. -/
theorem round_advances (options : ReadingOptions) {ahead : List Token} {stop : Token}
    (hstop : stop.isEnd = true) (hahead : ∀ token ∈ ahead, token.isEnd = false)
    (beyond : List Token) {cursor : Cursor} (hclosed : cursor.depth = 0)
    (hlt : cursor.current < ahead.length) :
    ∃ result next,
      (∀ room, 12 * (ahead.length + 1) ≤ room →
        (round (ahead ++ stop :: beyond) options room).run cursor = some (result, next)) ∧
      next.depth = 0 ∧ cursor.current < next.current ∧ next.current ≤ ahead.length := by
  have hlength : (ahead.drop cursor.current).length = ahead.length - cursor.current :=
    List.length_drop
  have hmore : ahead.drop cursor.current ≠ [] := List.ne_nil_of_length_pos (by omega)
  obtain ⟨result, distance, hpos, hdistance, hround⟩ := round_moves options
    (Track.ofCursor hstop hahead beyond cursor (Nat.le_of_lt hlt)) hclosed hmore
  have hwithin : distance ≤ (ahead.drop cursor.current).length := hdistance
  refine ⟨result, _, fun room hroom => hround room ?_, hclosed, ?_, ?_⟩
  · change 12 * ((ahead.drop cursor.current).length + 1) ≤ room
    omega
  · change cursor.current < cursor.current + distance
    omega
  · change cursor.current + distance ≤ ahead.length
    omega

end Walk

namespace Scan

/-- Scanning once more any number of times adds as many ends of the source. -/
theorem tokens_repeat_again (scan : Scan) (times : Nat) :
    (Nat.repeat again times scan).tokens =
      scan.tokens ++ List.replicate times (Token.endOfSource scan.lastLine) := by
  have hboth : (Nat.repeat again times scan).lastLine = scan.lastLine ∧
      (Nat.repeat again times scan).tokens =
        scan.tokens ++ List.replicate times (Token.endOfSource scan.lastLine) := by
    induction times with
    | zero => exact ⟨rfl, (List.append_nil _).symm⟩
    | succ times ih =>
      refine ⟨ih.1, ?_⟩
      rw [Nat.repeat, again, ih.1, ih.2, List.append_assoc, List.replicate_succ']
  exact hboth.2

end Scan

namespace Parser

/-- A new parser of tokens, their first end of the source, and what stands beyond it. -/
def opening (options : ReadingOptions) (ahead : List Token) (stop : Token) (beyond : List Token) :
    Parser :=
  ⟨ahead ++ stop :: beyond, stop, ahead, options⟩

section Opening

variable {options : ReadingOptions} {ahead beyond others : List Token} {stop : Token}
  {parser : Parser} (hstop : stop.isEnd = true) (hahead : ∀ token ∈ ahead, token.isEnd = false)

include hstop hahead

/-- The parser of a token list has everything up to the first end of the source still to read. -/
theorem eq_opening_of_ofTokens (h : ofTokens options (ahead ++ stop :: beyond) = .ok parser) :
    parser = opening options ahead stop beyond := by
  have hfind : (ahead ++ stop :: beyond).find? Token.isEnd = some stop :=
    List.find?_eq_some_iff_append.mpr ⟨hstop, ahead, beyond, rfl, fun token hmem => by
      rw [hahead token hmem]
      rfl⟩
  rw [ofTokens, hfind, body_append_cons hstop hahead] at h
  cases hlast : (ahead ++ stop :: beyond).getLast? with
  | none =>
    rw [hlast] at h
    cases h
  | some last =>
    rw [hlast] at h
    by_cases hend : last.isEnd = true
    · simp only [hend, if_true] at h
      cases h
      rfl
    · simp only [hend, Bool.false_eq_true, if_false] at h
      cases h

/-- A new parser answers as if something else stood beyond the first end of the source. -/
theorem turns_opening (sink : Sink) (modes : List Mode) :
    (opening options ahead stop others).turns sink modes =
      (opening options ahead stop beyond).turns sink modes := by
  have hbody : body (ahead ++ stop :: others) = body (ahead ++ stop :: beyond) := by
    rw [body_append_cons hstop hahead, body_append_cons hstop hahead]
  exact turns_tokens (opening options ahead stop beyond) hbody sink modes

/-- A new parser is at the start of its track. -/
theorem onTrack_opening :
    (opening options ahead stop beyond).OnTrack
      (Track.ofCursor hstop hahead beyond Cursor.start (Nat.zero_le _)) :=
  ⟨rfl, rfl, List.suffix_refl ahead⟩

/-- Calls from the start are answered as by a new parser. -/
theorem calls_opening {room : Nat} (hroom : 12 * (ahead.length + 1) ≤ room) (sink : Sink)
    (modes : List Mode) :
    (Walk.calls (ahead ++ stop :: beyond) options room modes).run Cursor.start =
      some (((opening options ahead stop beyond).turns sink modes).map fun turn =>
          (turn.answer, Cursor.arrived turn.current),
        Cursor.arrived
          ((((opening options ahead stop beyond).turns sink modes).map Turn.current).getLastD
            0)) := by
  have htrack : OnTrack _ (opening options ahead stop beyond) := onTrack_opening hstop hahead
  have hcurrent : (opening options ahead stop beyond).current = 0 := by
    rw [htrack.current_eq]
    exact Nat.sub_self ahead.length
  have hcalls := htrack.calls_run hroom sink modes
  rw [hcurrent] at hcalls
  exact hcalls

/-- A list that holds the ends that scanning on adds, and those only, makes a parser. -/
theorem ofTokens_replicate (options : ReadingOptions) (times : Nat) :
    ofTokens options (ahead ++ stop :: List.replicate times stop) =
      .ok (opening options ahead stop (List.replicate times stop)) := by
  have hlast : (ahead ++ stop :: List.replicate times stop).getLast? = some stop := by
    rw [← List.replicate_succ, List.replicate_succ', ← List.append_assoc,
      List.getLast?_concat]
  obtain ⟨parser, hparser⟩ := exists_ofTokens options hlast hstop
  rw [hparser, eq_opening_of_ofTokens hstop hahead hparser]

end Opening

/-- However often a source is scanned on at its end, its tokens make a parser that answers as that
of the first scan. -/
theorem turns_of_again (options : ReadingOptions) (sink : Sink) (modes : List Mode) (source : Text)
    (times : Nat) :
    ∃ once again,
      ofTokens options (Scan.ofSource source).tokens = .ok once ∧
      ofTokens options (Nat.repeat Scan.again times (Scan.ofSource source)).tokens = .ok again ∧
      again.turns sink modes = once.turns sink modes := by
  have hstop : (Token.endOfSource (Scan.ofSource source).lastLine).isEnd = true := rfl
  have hahead : ∀ token ∈ (Segment.located 1 (segments source)).filterMap Segment.token?,
      token.isEnd = false := fun _ => Scan.isEnd_of_mem
  have htokens : (Scan.ofSource source).tokens =
      (Segment.located 1 (segments source)).filterMap Segment.token? ++
        [Token.endOfSource (Scan.ofSource source).lastLine] := rfl
  have hagain := ofTokens_replicate hstop hahead options times
  rw [List.append_cons, ← htokens, ← Scan.tokens_repeat_again] at hagain
  exact ⟨_, _, ofTokens_replicate hstop hahead options 0, hagain, turns_opening hstop hahead _ _⟩

/-- The cursor of a parser is safe, moves forward only and stops at the first end of the source. On
every token list that makes a parser, and for every sequence of calls, no token is asked for where
there is none and every call comes back, with the answer and at the place of the parser: there is a
room, linear in the place of the first end, from which on the walk has its result. Between two calls
nothing is open, and up to then the cursor has stood at one place after the other, none of them
beyond the first end. Every round of reading a program moves it on, so a program leaves it at that
end. What is answered and reported therefore stays the same if the tokens beyond the first end are
replaced or dropped, as with those of a source that was scanned on at its end. -/
theorem cursor_stops_at_first_end (options : ReadingOptions) (tokens : List Token)
    (parser : Parser) (hparser : ofTokens options tokens = .ok parser) (sink : Sink)
    (modes : List Mode) :
    firstEnd tokens < tokens.length ∧
    (∃ stops last,
      (∀ room, 12 * (firstEnd tokens + 1) ≤ room →
        (Walk.calls tokens options room modes).run Cursor.start = some (stops, last)) ∧
      stops.length = modes.length ∧
      stops.map (fun stop => (stop.1, stop.2.current)) =
        (parser.turns sink modes).map (fun turn => (turn.answer, turn.current)) ∧
      (∀ stop ∈ stops, stop.2.Settled (firstEnd tokens)) ∧
      last.Settled (firstEnd tokens) ∧
      (∀ pair ∈ modes.zip stops, pair.1 = .program → pair.2.2.current = firstEnd tokens) ∧
      ∀ others room, 12 * (firstEnd tokens + 1) ≤ room →
        (Walk.calls (tokens.take (firstEnd tokens + 1) ++ others) options room modes).run
          Cursor.start = some (stops, last)) ∧
    (∀ cursor : Cursor, cursor.depth = 0 → cursor.current < firstEnd tokens →
      ∃ result next,
        (∀ room, 12 * (firstEnd tokens + 1) ≤ room →
          (Walk.round tokens options room).run cursor = some (result, next)) ∧
        next.depth = 0 ∧ cursor.current < next.current ∧ next.current ≤ firstEnd tokens) ∧
    (∀ others other, ofTokens options (tokens.take (firstEnd tokens + 1) ++ others) = .ok other →
      other.turns sink modes = parser.turns sink modes) ∧
    (∃ other, ofTokens options (tokens.take (firstEnd tokens + 1)) = .ok other ∧
      other.turns sink modes = parser.turns sink modes) ∧
    ∀ source times, ∃ once again,
      ofTokens options (Scan.ofSource source).tokens = .ok once ∧
      ofTokens options (Nat.repeat Scan.again times (Scan.ofSource source)).tokens = .ok again ∧
      again.turns sink modes = once.turns sink modes := by
  obtain ⟨ahead, stop, beyond, rfl, hstop, hahead⟩ := exists_append_of_ofTokens hparser
  obtain rfl := eq_opening_of_ofTokens hstop hahead hparser
  have hfirst := firstEnd_append_cons hstop hahead beyond
  have hkept : ∀ others, (ahead ++ stop :: beyond).take (ahead.length + 1) ++ others =
      ahead ++ stop :: others := fun others => by
    rw [List.take_length_add_append, List.take_succ_cons, List.take_zero, List.append_assoc,
      List.singleton_append]
  have hdropped : (ahead ++ stop :: beyond).take (ahead.length + 1) = ahead ++ [stop] :=
    (List.append_nil _).symm.trans (hkept [])
  have htrack : OnTrack _ (opening options ahead stop beyond) := onTrack_opening hstop hahead
  obtain ⟨hle, hprogram⟩ := htrack.turns_current sink modes
  rw [hfirst]
  refine ⟨by simp, ⟨_, _, fun room hroom => calls_opening hstop hahead hroom sink modes, ?_, ?_, ?_,
    ?_, ?_, ?_⟩, ?_, ?_, ?_, turns_of_again options sink modes⟩
  · rw [List.length_map, length_turns]
  · rw [List.map_map]
    rfl
  · intro visit hvisit
    obtain ⟨turn, hturn, rfl⟩ := List.mem_map.mp hvisit
    exact Cursor.settled_arrived (hle turn hturn)
  · have hplaces : ∀ place ∈ 0 :: ((opening options ahead stop beyond).turns sink modes).map
        Turn.current, place ≤ ahead.length :=
      List.forall_mem_cons.mpr ⟨Nat.zero_le _, List.forall_mem_map.mpr hle⟩
    exact Cursor.settled_arrived (hplaces _ List.getLastD_mem_cons)
  · rw [List.zip_map_right]
    intro pair hpair
    obtain ⟨call, hcall, rfl⟩ := List.mem_map.mp hpair
    exact hprogram call hcall
  · intro others room hroom
    rw [hkept, calls_opening hstop hahead hroom sink modes, turns_opening hstop hahead]
  · exact fun cursor => Walk.round_advances options hstop hahead beyond
  · intro others other hother
    rw [hkept] at hother
    rw [eq_opening_of_ofTokens hstop hahead hother, turns_opening hstop hahead]
  · rw [hdropped]
    exact ⟨_, ofTokens_append_end options hstop hahead, turns_opening hstop hahead _ _⟩

/-- A sign without an operand, and an end of the source with more tokens beyond it. -/
def cutShort : List Token :=
  [⟨.minus, ['-'], .none, 1⟩, ⟨.rightParen, [')'], .none, 1⟩, ⟨.semicolon, [';'], .none, 1⟩,
    Token.endOfSource 1, ⟨.keyword .printWord, "print".toList, .none, 2⟩, Token.endOfSource 2]

/-- An expression that cannot be read leaves the cursor in the middle of the source. A program read
from there leaves it at the first of two ends, and there it stays. -/
theorem cursor_stops_at_first_end_of_two :
    (∃ parser, ofTokens ⟨1, false⟩ cutShort = .ok parser) ∧ firstEnd cutShort = 3 ∧
    ∃ stops last,
      (∀ room, 48 ≤ room →
        (Walk.calls cutShort ⟨1, false⟩ room [.expression, .program, .expression]).run
          Cursor.start = some (stops, last)) ∧
      stops.map (fun stop => stop.2.current) = [1, 3, 3] ∧
      (∀ stop ∈ stops, stop.2.Settled 3) ∧ last.Settled 3 := by
  obtain ⟨-, ⟨stops, last, hrun, -, hturns, hstops, hlast, -, -⟩, -⟩ := cursor_stops_at_first_end
    ⟨1, false⟩ cutShort _ rfl none [.expression, .program, .expression]
  have hplaces := congrArg (List.map Prod.snd) hturns
  rw [List.map_map, List.map_map] at hplaces
  exact ⟨⟨_, rfl⟩, rfl, stops, last, hrun, hplaces.trans (by decide +kernel), hstops, hlast⟩

end Parser

end Lox
