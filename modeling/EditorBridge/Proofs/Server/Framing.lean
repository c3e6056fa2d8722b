import EditorBridge.Proofs.Json.RoundTrip
import EditorBridge.Proofs.Server.Frame
import EditorBridge.Proofs.Text.Utf8
import EditorBridge.Server.Frame

/-!
# Framing in both directions

A frame is written as one line, which holds one line feed, at its end (`line_eq`). A line that is
not too long is one piece of the stream it stands in (`piece_line`), and the piece reads as the
frame (`ofPiece_line`), so that a reader finds the frames that were written, one after the other,
and then the end of the stream (`reads_lines`).

The main statement is `framing_roundTrip`, for a pair of pipes: a reader of what the bridge has
written finds the commands, and the bridge finds the outcomes that a server has written.
-/

namespace EditorBridge

open Text

namespace Frame

/-- The line that a value is carried on. -/
def line (v : Json) : List UInt8 := encodeUtf8 (v.render ++ "\n")

/-- A frame that a reader accepts: an array, nested no deeper than it allows, on a line that is no
longer than it allows. -/
structure Fits (v : Json) : Prop where
  isArray : v.isArray = true
  plain : Json.IsPlain Json.maxDepth v
  short : (line v).length ≤ maxLineBytes

/-! ## One line -/

theorem line_eq (v : Json) : line v = encodeUtf8 v.render ++ [lineFeed] := by
  rw [line, encodeUtf8_append]
  rfl

theorem lineFeed_notMem_render (v : Json) : lineFeed ∉ encodeUtf8 v.render := by
  intro hmem
  have hchar := lineFeed_mem_encodeUtf8 hmem
  rw [Json.toList_render] at hchar
  exact Json.lineFeed_notMem_chars v hchar

/-- **A line holds one line feed,** whatever the value. -/
theorem count_line (v : Json) : (line v).count lineFeed = 1 := by
  rw [line_eq, List.count_append, List.count_eq_zero.mpr (lineFeed_notMem_render v)]
  rfl

theorem line_ne_nil (v : Json) : line v ≠ [] := by
  rw [line_eq]
  exact List.append_ne_nil_of_right_ne_nil _ (List.cons_ne_nil _ _)

/-- **A line is one piece** of a stream, if it is not too long. -/
theorem piece_line {v : Json} (h : (line v).length ≤ maxLineBytes) (rest : List UInt8) :
    piece (line v ++ rest) = line v ∧ afterPiece (line v ++ rest) = rest := by
  have hidx : (line v ++ rest).idxOf lineFeed + 1 = (line v).length := by
    rw [line_eq, List.append_assoc, List.idxOf_append_of_notMem (lineFeed_notMem_render v)]
    simp
  have hlength : pieceLength (line v ++ rest) = (line v).length := by
    rw [pieceLength, hidx]
    omega
  rw [piece, afterPiece, hlength]
  exact ⟨List.take_left, List.drop_left⟩

/-- The line feed after an array is blank, and the bracket before it is not. -/
theorem trimRight_line (items : List Json) :
    trimRight ((Json.array items).render ++ "\n").toList = Json.chars (.array items) := by
  have hlast : Json.chars (.array items) = ('[' :: Json.itemChars true items) ++ [']'] := by
    rw [Json.chars, List.cons_append]
  have hblank : isBlank '\n' = true := by decide
  have hbracket : isBlank ']' = false := by decide
  rw [String.toList_append, Json.toList_render, hlast, trimRight]
  simp [hblank, hbracket]

/-- **A line reads as its frame.** -/
theorem ofPiece_line {v : Json} (h : Fits v) : ofPiece (line v) = .ok v := by
  have hlast : (line v).getLast? = some lineFeed := by
    rw [line_eq]
    exact List.getLast?_concat
  have hvalue : Json.ofChars? (trimRight (v.render ++ "\n").toList) = some v := by
    cases v with
    | array items =>
      rw [trimRight_line]
      exact Json.ofChars?_chars h.plain
    | _ => cases h.isArray
  exact ofPiece_eq_ok_iff.mpr ⟨h.short, hlast, _, rfl, hvalue⟩

theorem read_of_ne_nil {stream : List UInt8} (h : stream ≠ []) :
    read stream = (some (ofPiece (piece stream)), afterPiece stream) := by
  cases stream with
  | nil => exact absurd rfl h
  | cons byte stream => rfl

theorem read_line {v : Json} (h : Fits v) (rest : List UInt8) :
    read (line v ++ rest) = (some (.ok v), rest) := by
  obtain ⟨hpiece, hafter⟩ := piece_line h.short rest
  rw [read_of_ne_nil (List.append_ne_nil_of_left_ne_nil (line_ne_nil v) rest), hpiece, hafter,
    ofPiece_line h]

/-! ## Streams of lines -/

/-- What some readings of a stream find, one after the other. -/
def reads : Nat → List UInt8 → List (Option (Except TransportError Json))
  | 0, _ => []
  | n + 1, stream => (read stream).1 :: reads n (read stream).2

/-- **A reader finds the frames that were written,** and then the end. -/
theorem reads_lines {frames : List Json} (h : ∀ v ∈ frames, Fits v) :
    reads (frames.length + 1) (frames.flatMap line) =
      frames.map (fun v => some (.ok v)) ++ [none] := by
  induction frames with
  | nil => rfl
  | cons v frames ih =>
    obtain ⟨hv, hframes⟩ := List.forall_mem_cons.mp h
    rw [List.length_cons, reads, List.flatMap_cons, read_line hv, ih hframes, List.map_cons,
      List.cons_append]

theorem count_lines (frames : List Json) :
    (frames.flatMap line).count lineFeed = frames.length := by
  induction frames with
  | nil => rfl
  | cons v frames ih =>
    rw [List.flatMap_cons, List.count_append, count_line, ih, List.length_cons, Nat.add_comm]

end Frame

/-! ## Commands and outcomes -/

theorem Command.ofFrame?_toFrame (c : Command) : Command.ofFrame? c.toFrame = some c := rfl

theorem Outcome.ofFrame_toFrame (o : Outcome) : Outcome.ofFrame o.toFrame = .ok o := by
  cases o with
  | accepted payload => rfl
  | rejected r =>
    obtain ⟨kind, payload⟩ := r
    cases kind <;> rfl

/-- The answer on a line is read, and nothing of the line is left. -/
theorem Frame.readOutcome_line {o : Outcome} (h : Fits o.toFrame) (rest : List UInt8) :
    readOutcome (line o.toFrame ++ rest) = (.ok o, rest) := by
  rw [readOutcome, read_line h]
  simp only
  rw [Outcome.ofFrame_toFrame]
  rfl

namespace Pipe

open EditorBridge.Frame

/-- What a reader of the commands finds. -/
def commandsIn (n : Nat) (stream : List UInt8) :
    List (Option (Except TransportError (Option Command))) :=
  (reads n stream).map (Option.map (Except.map Command.ofFrame?))

/-- A call writes the line of its command, and answers the outcome that is on the next line. -/
theorem run_call (c : Command) {o : Outcome} (ho : Fits o.toFrame) (sent rest : List UInt8) :
    (Transport.call c).run (⟨sent, line o.toFrame ++ rest⟩ : Pipe) =
      (.ok o, ⟨sent ++ line c.toFrame, rest⟩) := by
  change (Pipe.call c).run _ = _
  rw [call, Exchange.run_ofFun]
  simp only [readOutcome_line ho]
  rfl

/-- As many calls as there are outcomes write their commands, and answer the outcomes. -/
theorem run_calls {commands : List Command} {outcomes : List Outcome}
    (hlength : commands.length = outcomes.length) (h : ∀ o ∈ outcomes, Fits o.toFrame)
    (sent : List UInt8) :
    (commands.mapM Transport.call).run
        (⟨sent, (outcomes.map Outcome.toFrame).flatMap line⟩ : Pipe) =
      (.ok outcomes, ⟨sent ++ (commands.map Command.toFrame).flatMap line, []⟩) := by
  induction commands generalizing outcomes sent with
  | nil =>
    obtain rfl := List.eq_nil_of_length_eq_zero hlength.symm
    rw [List.mapM_nil, Exchange.run_pure]
    simp
  | cons c commands ih =>
    cases outcomes with
    | nil => cases hlength
    | cons o outcomes =>
      obtain ⟨ho, houtcomes⟩ := List.forall_mem_cons.mp h
      have hrest := ih (Nat.succ.inj hlength) houtcomes (sent ++ line c.toFrame)
      rw [List.map_cons, List.flatMap_cons, List.mapM_cons, Exchange.run_bind,
        run_call c ho]
      simp only
      rw [Exchange.run_bind, hrest]
      simp only
      rw [Exchange.run_pure, List.map_cons, List.flatMap_cons, List.append_assoc]

/-- **Framing in both directions.** If a server writes an outcome for each of some commands, then
the calls of the commands answer the outcomes in their order, and what they write holds one line
feed for each command. Whoever reads it finds the commands in their order, and then its end. -/
theorem framing_roundTrip (commands : List Command) (outcomes : List Outcome)
    (hlength : commands.length = outcomes.length)
    (hcommands : ∀ c ∈ commands, Fits c.toFrame) (houtcomes : ∀ o ∈ outcomes, Fits o.toFrame) :
    ∃ sent,
      (commands.mapM Transport.call).run
          (Pipe.ofBytes (outcomes.flatMap fun o => encodeUtf8 o.line)) =
        (.ok outcomes, ⟨sent, []⟩) ∧
      sent = commands.flatMap (fun c => encodeUtf8 c.line) ∧
      sent.count lineFeed = commands.length ∧
      commandsIn (commands.length + 1) sent =
        commands.map (fun c => some (.ok (some c))) ++ [none] := by
  have hanswers : outcomes.flatMap (fun o => encodeUtf8 o.line) =
      (outcomes.map Outcome.toFrame).flatMap line := by
    rw [List.flatMap_map]
    rfl
  have hsent : commands.flatMap (fun c => encodeUtf8 c.line) =
      (commands.map Command.toFrame).flatMap line := by
    rw [List.flatMap_map]
    rfl
  have hcount := count_lines (commands.map Command.toFrame)
  have hframes : ∀ v ∈ commands.map Command.toFrame, Fits v := by
    intro v hv
    obtain ⟨c, hc, rfl⟩ := List.mem_map.mp hv
    exact hcommands c hc
  have hreads := reads_lines hframes
  rw [List.length_map] at hcount hreads
  refine ⟨_, ?_, rfl, ?_, ?_⟩
  · rw [hanswers, hsent]
    exact run_calls hlength houtcomes []
  · rw [hsent, hcount]
  · rw [commandsIn, hsent, hreads]
    simp [Except.map, Command.ofFrame?_toFrame]

/-- A text of two lines, and a command whose name has a line feed. -/
def oddCommands : List Command :=
  [.tell .struct ["a\tb", "c"],
    ⟨"odd\nname", [.null, .object [("col", .number (.integer (-1))), ("line", .array [])]]⟩]

/-- An error whose message has two lines, and the largest integer there is. -/
def oddOutcomes : List Outcome :=
  [.rejected ⟨.error, .object [("message", .string "a \"b\"\nc")]⟩,
    .accepted (.number (.integer 18446744073709551615))]

theorem framing_roundTrip_odd :
    (oddCommands.mapM Transport.call).run
        (Pipe.ofBytes (oddOutcomes.flatMap fun o => encodeUtf8 o.line)) =
      (.ok oddOutcomes, ⟨oddCommands.flatMap fun c => encodeUtf8 c.line, []⟩) := by
  have hcommands : ∀ c ∈ oddCommands, Fits c.toFrame := by
    refine List.forall_mem_cons.mpr ⟨⟨rfl, .array ?_, by decide +kernel⟩,
      List.forall_mem_singleton.mpr ⟨rfl, .array ?_, by decide +kernel⟩⟩
    · exact List.forall_mem_cons.mpr ⟨.string _ _, List.forall_mem_cons.mpr ⟨.string _ _,
        List.forall_mem_singleton.mpr (.string _ _)⟩⟩
    · refine List.forall_mem_cons.mpr ⟨.string _ _, List.forall_mem_cons.mpr ⟨.null _,
        List.forall_mem_singleton.mpr (.object (by decide) ?_)⟩⟩
      exact List.forall_mem_cons.mpr ⟨.number _ (by decide),
        List.forall_mem_singleton.mpr (.array (List.forall_mem_nil _))⟩
  have houtcomes : ∀ o ∈ oddOutcomes, Fits o.toFrame := by
    refine List.forall_mem_cons.mpr ⟨⟨rfl, .array ?_, by decide +kernel⟩,
      List.forall_mem_singleton.mpr ⟨rfl, .array ?_, by decide +kernel⟩⟩
    · refine List.forall_mem_cons.mpr ⟨.string _ _,
        List.forall_mem_singleton.mpr (.object (by decide) ?_)⟩
      exact List.forall_mem_singleton.mpr (.string _ _)
    · exact List.forall_mem_cons.mpr ⟨.string _ _,
        List.forall_mem_singleton.mpr (.number _ (by decide))⟩
  obtain ⟨sent, hcalls, rfl, -⟩ :=
    framing_roundTrip oddCommands oddOutcomes rfl hcommands houtcomes
  exact hcalls

end Pipe

end EditorBridge
