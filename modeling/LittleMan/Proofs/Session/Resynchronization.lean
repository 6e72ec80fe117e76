import LittleMan.CommandLine.Program
import LittleMan.Proofs.Session.Framing

/-! Streams that hold other things than messages. Whatever is framed takes up its own bytes, and a line
without a colon its own, so that each message behind them is received. What is no message leaves nothing
but a line of the log. -/

namespace LittleMan

/-- What is framed. No memory holds more bytes, and there is room for what is nested in them. -/
structure Body where
  bytes : List UInt8
  bound : bytes.length < 2 ^ 63
  shallow : Frame.ofBody bytes ≠ .tooDeep

/-- A line that is no field of a header, without its break. -/
structure StrayLine where
  bytes : List UInt8
  noColon : (58 : UInt8) ∉ bytes
  noBreak : (10 : UInt8) ∉ bytes

/-- What the decoder makes of some bytes. -/
def decode? (bytes : List UInt8) : Option Json :=
  (String.fromUTF8? ⟨bytes.toArray⟩).bind fun text =>
    (Json.read Json.depthLimit text.toList).toOption

/-- The message that a body holds: the text of an object that tells the version of the protocol. -/
def Body.message? (body : Body) : Option (List (Text × Json)) :=
  match decode? body.bytes with
  | some (.obj fields) => if Json.lookup "jsonrpc" fields = some (.str "2.0") then some fields else none
  | _ => none

inductive Item where
  | framed (body : Body)
  | stray (line : StrayLine)

namespace Item

def bytes : Item → List UInt8
  | framed body => Frame.headerOf body.bytes.length ++ body.bytes
  | stray line => line.bytes ++ [10]

def message? : Item → Option (List (Text × Json))
  | framed body => body.message?
  | stray _ => none

end Item

def stream (items : List Item) : List UInt8 := items.flatMap Item.bytes

namespace Frame

def message? : Frame → Option (List (Text × Json))
  | .message fields => some fields
  | _ => none

theorem ofBody_of_body (body : Body) :
    (∃ fields, body.message? = some fields ∧ ofBody body.bytes = .message fields) ∨
      body.message? = none ∧ ∃ why, ofBody body.bytes = .malformed why := by
  have hshallow := body.shallow
  rw [ofBody] at hshallow
  rw [ofBody, Body.message?, decode?]
  cases htext : String.fromUTF8? ⟨body.bytes.toArray⟩ with
  | none => exact Or.inr ⟨rfl, _, rfl⟩
  | some text =>
    simp only [htext] at hshallow
    simp only [Option.bind_some]
    cases hread : Json.read Json.depthLimit text.toList with
    | error e =>
      cases e with
      | tooDeep => exact absurd (by rw [hread]) hshallow
      | _ => exact Or.inr ⟨rfl, _, rfl⟩
    | ok v =>
      cases v with
      | obj fields =>
        by_cases h : Json.lookup "jsonrpc" fields = some (.str "2.0")
        · exact Or.inl ⟨fields, if_pos h, if_pos h⟩
        · exact Or.inr ⟨if_neg h, _, if_neg h⟩
      | _ => exact Or.inr ⟨rfl, _, rfl⟩

end Frame

/-- What reading takes off a stream that starts with an item: the item and no more. A blank line goes
unnoticed. -/
inductive Item.IsRead (item : Item) (rest : List UInt8) : Prop
  | message (fields : List (Text × Json)) (hm : item.message? = some fields)
      (hr : Frame.read {} (item.bytes ++ rest) = (.message fields, rest))
  | malformed (why : Malformation) (hm : item.message? = none)
      (hr : Frame.read {} (item.bytes ++ rest) = (.malformed why, rest))
  | unnoticed (hm : item.message? = none)
      (hr : Frame.read {} (item.bytes ++ rest) = Frame.read {} rest)

namespace Frame

theorem isRead (item : Item) (rest : List UInt8) : item.IsRead rest := by
  cases item with
  | framed body =>
    have hread : read {} ((Item.framed body).bytes ++ rest) = (ofBody body.bytes, rest) := by
      rw [Item.bytes, List.append_assoc, read_headerOf body.bound, List.take_left, List.drop_left]
    rcases ofBody_of_body body with ⟨fields, hm, hframe⟩ | ⟨hm, why, hframe⟩
    · exact .message fields hm (hread.trans (by rw [hframe]))
    · exact .malformed why hm (hread.trans (by rw [hframe]))
  | stray line =>
    have hbytes : (Item.stray line).bytes ++ rest = line.bytes ++ 10 :: rest := by
      rw [Item.bytes, List.append_assoc, List.singleton_append]
    rcases read_stray line.noColon line.noBreak rest with ⟨why, h⟩ | h
    · exact .malformed why rfl (by rw [hbytes, h])
    · exact .unnoticed rfl (by rw [hbytes, h])

theorem all_eq_of_read_eq {bytes bytes' : List UInt8} (h : read {} bytes = read {} bytes') :
    all bytes = all bytes' := by
  cases hr : read {} bytes' with
  | mk frame rest =>
    rw [hr] at h
    by_cases hend : frame = .ended
    · subst hend
      rw [all_of_ended h, all_of_ended hr]
    · rw [all_of_read h hend, all_of_read hr hend]

/-- The frames are those messages, with malformed ones between them. -/
inductive Interspersed : List Frame → List (List (Text × Json)) → Prop
  | nil : Interspersed [] []
  | message (fields : List (Text × Json)) {frames : List Frame}
      {messages : List (List (Text × Json))} (h : Interspersed frames messages) :
      Interspersed (.message fields :: frames) (fields :: messages)
  | malformed (why : Malformation) {frames : List Frame} {messages : List (List (Text × Json))}
      (h : Interspersed frames messages) : Interspersed (.malformed why :: frames) messages

theorem interspersed_stream (items : List Item) :
    Interspersed (all (stream items)) (items.filterMap Item.message?) := by
  induction items with
  | nil => rw [stream, List.flatMap_nil, all]; exact .nil
  | cons item items ih =>
    rw [stream, List.flatMap_cons, ← stream]
    cases isRead item (stream items) with
    | message fields hm hr =>
      rw [List.filterMap_cons_some hm, all_of_read hr (by simp)]
      exact .message fields ih
    | malformed why hm hr =>
      rw [List.filterMap_cons_none hm, all_of_read hr (by simp)]
      exact .malformed why ih
    | unnoticed hm hr =>
      rw [List.filterMap_cons_none hm, all_eq_of_read_eq hr]
      exact ih

theorem Interspersed.filterMap_eq {frames : List Frame} {messages : List (List (Text × Json))}
    (h : Interspersed frames messages) : frames.filterMap message? = messages := by
  induction h with
  | nil => rfl
  | message fields _ ih => exact congrArg (fields :: ·) ih
  | malformed _ _ ih => exact ih

end Frame

namespace Session

open LittleMan.Frame

def tellsMalformed (line : Text) : Bool := (Text.toList "Malformed message: ").isPrefixOf line.toList

/-- The lines of a log without those that tell of something malformed. -/
def wellFormedLines (log : List Text) : List Text := log.filter (!tellsMalformed ·)

theorem tellsMalformed_append (account : Text) :
    tellsMalformed ("Malformed message: " ++ account) = true := by
  rw [tellsMalformed, Text.toList_append, List.isPrefixOf_iff_prefix]
  exact List.prefix_append _ _

theorem alike_run {files : List Text → FileReader}
    (hfiles : ∀ log log', wellFormedLines log = wellFormedLines log' → files log = files log')
    {frames : List Frame} {messages : List (List (Text × Json))}
    (h : Interspersed frames messages) {server : Server} (he : server.exited = false)
    {log log' : List Text} (hl : wellFormedLines log = wellFormedLines log') :
    (merge (run files server log frames)).Alike
      (merge (run files server log' (messages.map .message))) := by
  induction h generalizing server log log' with
  | nil => exact ⟨rfl, rfl, rfl⟩
  | message fields h ih =>
    rw [List.map_cons, run, run, hfiles log log' hl]
    generalize turn (files log') server (.message fields) = t
    split
    · exact .refl _
    · split
      · exact .refl _
      · next hexit =>
        have hnext : wellFormedLines (log ++ t.log) = wellFormedLines (log' ++ t.log) := by
          rw [wellFormedLines, wellFormedLines, List.filter_append, List.filter_append]
          exact congrArg (· ++ _) hl
        exact alike_cons (run_ne_nil _ _ _ _) (run_ne_nil _ _ _ _) rfl
          (ih (by simpa using hexit) hnext)
  | @malformed why frames messages h ih =>
    have hnext : wellFormedLines (log ++ ["Malformed message: " ++ why.account]) =
        wellFormedLines log' := by
      rw [← hl, wellFormedLines, List.filter_append, List.filter_cons_of_neg
        (by rw [tellsMalformed_append]; decide)]
      exact List.append_nil _
    have hrest := ih he hnext
    have hrun : run files server log (.malformed why :: frames) =
        turn (files log) server (.malformed why) ::
          run files server (log ++ ["Malformed message: " ++ why.account]) frames :=
      run_cons_of_going rfl he
    obtain ⟨hserver, hout, hfault⟩ := merge_cons (t := turn (files log) server (.malformed why))
      (run_ne_nil files server (log ++ ["Malformed message: " ++ why.account]) frames)
    rw [hrun]
    exact ⟨hserver.trans hrest.server, hout.trans hrest.out, hfault.trans hrest.fault⟩

/-- The messages that a session takes a turn for. -/
def delivered (bytes : List UInt8) (ts : List Turn) : List (List (Text × Json)) :=
  (history bytes ts).filterMap fun p => p.1.message?

theorem length_run (files : List Text → FileReader) (server : Server) (log : List Text)
    (frames : List Frame) (hf : (merge (run files server log frames)).fault = none)
    (he : (merge (run files server log frames)).server.exited = false) :
    frames.length < (run files server log frames).length := by
  induction frames generalizing server log with
  | nil => exact Nat.zero_lt_one
  | cons frame frames ih =>
    rw [run] at hf he ⊢
    generalize turn (files log) server frame = t at hf he ⊢
    by_cases hfault : t.fault.isSome = true
    · rw [if_pos hfault] at hf
      rw [show t.fault = none from hf] at hfault
      cases hfault
    · rw [if_neg hfault] at hf he ⊢
      by_cases hexit : t.server.exited = true
      · rw [if_pos hexit] at he
        rw [show t.server.exited = false from he] at hexit
        cases hexit
      · rw [if_neg hexit] at hf he ⊢
        obtain ⟨hserver, -, hrest⟩ := merge_cons (t := t)
          (run_ne_nil files t.server (log ++ t.log) frames)
        rw [hrest] at hf
        rw [hserver] at he
        exact Nat.succ_lt_succ (ih t.server (log ++ t.log) hf he)

theorem filterMap_zip (frames : List Frame) (ts : List Turn) :
    (frames.zip ts).filterMap (fun p => p.1.message?) =
      (frames.take ts.length).filterMap Frame.message? := by
  have hfirst : (frames.zip ts).map Prod.fst = frames.take ts.length := by
    induction frames generalizing ts with
    | nil => simp
    | cons frame frames ih =>
      cases ts with
      | nil => rfl
      | cons t ts => exact congrArg (frame :: ·) (ih ts)
  rw [← hfirst, List.filterMap_map]
  rfl

/-- What a session makes of a stream. -/
structure Resynchronizes (files : List Text → FileReader) (items : List Item) : Prop where
  skips : ∀ item ∈ items, ∀ rest, item.IsRead rest
  /-- The messages are taken in order, up to the end of the session. -/
  delivers : delivered (stream items) (transcript files (stream items)) <+:
    items.filterMap Item.message?
  /-- All of them are, unless the session fails or is asked to end. -/
  completes : (merge (transcript files (stream items))).fault = none →
    (merge (transcript files (stream items))).server.exited = false →
      delivered (stream items) (transcript files (stream items)) = items.filterMap Item.message?
  /-- The session is the one on the messages alone, if no file shows what of its log is malformed. -/
  ignores : (∀ log log', wellFormedLines log = wellFormedLines log' → files log = files log') →
    (merge (transcript files (stream items))).Alike
      (merge (transcript files (stream (items.filter fun item => item.message?.isSome))))
  /-- What the server sends is framed, and received if it can be read back. -/
  sends : ∀ (fields : List (Text × Json)) (body : Body),
    body.bytes = octets (String.ofList (Json.obj fields).print) →
      (Item.framed body).bytes = Frame.encode (.obj fields) ∧
        (Json.read Json.depthLimit (Json.obj fields).print = .ok (.obj fields) →
          Json.lookup "jsonrpc" fields = some (.str "2.0") →
            (Item.framed body).message? = some fields)

theorem filterMap_filter (items : List Item) :
    (items.filter fun item => item.message?.isSome).filterMap Item.message? =
      items.filterMap Item.message? := by
  rw [List.filterMap_filter]
  refine List.filterMap_congr fun item _ => ?_
  cases item.message? <;> rfl

theorem delivered_eq (files : List Text → FileReader) (items : List Item) :
    delivered (stream items) (transcript files (stream items)) =
      ((Frame.all (stream items)).take (transcript files (stream items)).length).filterMap
        Frame.message? :=
  filterMap_zip _ _

theorem bytes_of_sent {v : Json} {body : Body} (h : body.bytes = octets (String.ofList v.print)) :
    (Item.framed body).bytes = Frame.encode v := by
  rw [Item.bytes, h, Frame.encode_eq]

theorem message?_of_sent {fields : List (Text × Json)} {body : Body}
    (h : body.bytes = octets (String.ofList (Json.obj fields).print))
    (hread : Json.read Json.depthLimit (Json.obj fields).print = .ok (.obj fields))
    (hversion : Json.lookup "jsonrpc" fields = some (.str "2.0")) :
    (Item.framed body).message? = some fields := by
  have hframe := Frame.ofBody_octets hread hversion
  rw [← h] at hframe
  rcases Frame.ofBody_of_body body with ⟨fields', hm, heq⟩ | ⟨-, why, heq⟩
  · obtain rfl := Frame.message.inj (heq.symm.trans hframe)
    exact hm
  · rw [heq] at hframe
    cases hframe

theorem resynchronizes (files : List Text → FileReader) (items : List Item) :
    Resynchronizes files items := by
  have hmixed := interspersed_stream items
  refine ⟨fun item _ rest => Frame.isRead item rest, ?_, fun hf he => ?_, fun hfiles => ?_,
    fun fields body hbody => ⟨bytes_of_sent hbody, message?_of_sent hbody⟩⟩
  · rw [delivered_eq, ← hmixed.filterMap_eq]
    exact (List.take_prefix _ _).filterMap _
  · rw [(alike_transcript files _).fault] at hf
    rw [(alike_transcript files _).server] at he
    have hlength := length_run files {} [greeting] (Frame.all (stream items)) hf he
    rw [← length_greet, ← transcript_eq] at hlength
    rw [delivered_eq, List.take_of_length_le (Nat.le_of_lt hlength), hmixed.filterMap_eq]
  · have hmixed' := interspersed_stream (items.filter fun item => item.message?.isSome)
    rw [filterMap_filter] at hmixed'
    have hwhole := (alike_transcript files (stream items)).trans (alike_run hfiles hmixed rfl rfl)
    have hpart := (alike_transcript files _).trans (alike_run hfiles hmixed' rfl rfl)
    exact hwhole.trans hpart.symm

def sent {fields : List (Text × Json)} (h : Frame.ReadsBack fields) : Item :=
  .framed ⟨octets (String.ofList (Json.obj fields).print), by
    rw [length_octets]
    exact h.2.2, by
    rw [Frame.ofBody_octets h.1 h.2.1]
    exact Frame.noConfusion⟩

theorem bytes_sent {fields : List (Text × Json)} (h : Frame.ReadsBack fields) :
    (sent h).bytes = Frame.encode (.obj fields) := bytes_of_sent rfl

theorem message?_sent {fields : List (Text × Json)} (h : Frame.ReadsBack fields) :
    (sent h).message? = some fields := message?_of_sent rfl h.1 h.2.1

def opening : List (Text × Json) := [("jsonrpc", .str "2.0"), ("method", .str "initialize")]

/-- A client opens an empty document. The log tells of it, with its name where a mnemonic would stand. -/
def naming : List (Text × Json) :=
  [("jsonrpc", .str "2.0"), ("method", .str "textDocument/didOpen"),
    ("params", .obj [("textDocument", .obj [("uri", .str "ABC"), ("text", .str "")])])]

/-- A client asks what is wrong with the lines of the log. -/
def askOfLog : List (Text × Json) :=
  [("jsonrpc", .str "2.0"), ("id", .int 1), ("method", .str "textDocument/diagnostic"),
    ("params", .obj [("textDocument", .obj [("uri", .str "file://log")])])]

theorem codec_opening : Frame.ReadsBack opening := by decide +kernel

theorem codec_naming : Frame.ReadsBack naming := by decide +kernel

theorem codec_askOfLog : Frame.ReadsBack askOfLog := by decide +kernel

def sentItems : List Item := [sent codec_opening, sent codec_naming, sent codec_askOfLog]

def strayItems : List Item := .stray ⟨[120], by decide, by decide⟩ :: sentItems

theorem filter_strayItems :
    (strayItems.filter fun item => item.message?.isSome) = sentItems := by
  have hsent : ∀ item ∈ sentItems, item.message?.isSome = true := by
    intro item hitem
    simp only [sentItems, List.mem_cons, List.not_mem_nil, or_false] at hitem
    rcases hitem with rfl | rfl | rfl
    · rw [message?_sent]; rfl
    · rw [message?_sent]; rfl
    · rw [message?_sent]; rfl
  rw [strayItems, List.filter_cons_of_neg (by simp [Item.message?]), List.filter_eq_self.2 hsent]

theorem frames_sentItems :
    Frame.all (stream sentItems) = [opening, naming, askOfLog].map .message := by
  have hbytes : stream sentItems =
      ([opening, naming, askOfLog].map Json.obj).flatMap Frame.encode := by
    simp only [stream, sentItems, List.flatMap_cons, List.map_cons, bytes_sent]
    rfl
  have hcodec : ∀ fields ∈ [opening, naming, askOfLog], Frame.ReadsBack fields := by
    simp only [List.forall_mem_cons]
    exact ⟨codec_opening, codec_naming, codec_askOfLog, by simp⟩
  rw [hbytes]
  exact Frame.all_flatMap_encode hcodec

theorem frames_strayItems :
    Frame.all (stream strayItems) = .malformed .noColon :: [opening, naming, askOfLog].map .message := by
  have hread : Frame.read {} (stream strayItems) = (.malformed .noColon, stream sentItems) := by
    have hline : Frame.HeaderLine.read ([120] ++ [10]) = .malformed .noColon := by decide
    show Frame.read {} ([120] ++ 10 :: stream sentItems) = _
    rw [Frame.read_of_break (by decide), Frame.Header.next, hline]
  rw [Frame.all_of_read hread (by simp), frames_sentItems]

/-- The files of a program that keeps its log in one of them. -/
def logFiles (lines : List Text) : FileReader :=
  ((Program.afterLog {} (some "log") lines).toOption.getD {}).read

/-- The log as it is read back. -/
def logText : List Text → List Char
  | [] => []
  | line :: lines =>
    match Text.characters? line.toList with
    | some cs => cs ++ '\n' :: logText lines
    | none => []

theorem logBytes_eq (lines : List Text) :
    Program.logBytes lines = octets (String.ofList (logText lines)) := by
  have hempty : octets (String.ofList []) = [] := by decide +kernel
  induction lines with
  | nil => exact hempty.symm
  | cons line lines ih =>
    rw [Program.logBytes, logText, Text.toString?]
    cases Text.characters? line.toList with
    | none => exact hempty.symm
    | some cs =>
      have htext : String.ofList (cs ++ '\n' :: logText lines) =
          String.ofList cs ++ "\n" ++ String.ofList (logText lines) := by
        rw [← String.toList_inj]
        simp
      rw [htext, octets_append, ← ih]
      rfl

theorem logFiles_log (lines : List Text) :
    logFiles lines "log" = .ok (normalizeBreaks ((logText lines).map .scalar)) := by
  have hvacant : FileTree.find {} "log" = .vacant [FileTree.nameOf "log"] false := by decide +kernel
  have hfile : ∀ content, FileTree.find { files := [([FileTree.nameOf "log"], content)] } "log" =
      .file [FileTree.nameOf "log"] content false := by
    intro content
    rfl
  have hwritten : Program.afterLog {} (some "log") lines =
      .ok { files := [([FileTree.nameOf "log"], Program.logBytes lines)] } := by
    simp only [Program.afterLog, FileTree.append, hvacant]
    rfl
  have htext : textOfFile (Program.logBytes lines) =
      .ok (normalizeBreaks ((logText lines).map .scalar)) := by
    simp only [logBytes_eq, textOfFile, fromUTF8?_octets, Text.toList_ofString, String.toList_ofList]
  rw [logFiles, hwritten]
  simp only [Except.toOption, Option.getD_some, FileTree.read, FileTree.bytes, hfile, bind,
    Except.bind]
  exact htext

/-- The files as far as a session reads them. -/
def readLog (lines : List Text) (path : Text) : Except Fault (List CodePoint) :=
  if path = "log" then .ok (normalizeBreaks ((logText lines).map .scalar)) else logFiles lines path

theorem logFiles_eq : logFiles = readLog := by
  funext lines path
  by_cases h : path = "log"
  · rw [readLog, if_pos h, h, logFiles_log]
  · rw [readLog, if_neg h]

/-- The log may be one of the files. A line that is no header then moves all that is wrong with it down. -/
theorem not_out_eq_of_strays :
    ¬ ∀ (files : List Text → FileReader) (items : List Item),
      (merge (transcript files (stream items))).out =
        (merge (transcript files (stream (items.filter fun item => item.message?.isSome)))).out := by
  intro h
  have hout := h logFiles strayItems
  rw [filter_strayItems, (alike_transcript _ _).out, (alike_transcript _ _).out, frames_strayItems,
    frames_sentItems, logFiles_eq] at hout
  have hdiffer : (merge (run readLog {} [greeting]
      (.malformed .noColon :: [opening, naming, askOfLog].map .message))).out ≠
        (merge (run readLog {} [greeting] ([opening, naming, askOfLog].map .message))).out := by
    decide +kernel
  exact hdiffer hout

/-- With files that stay as they are, the line leaves no trace. -/
theorem alike_of_strayItems :
    strayItems.filterMap Item.message? = [opening, naming, askOfLog] ∧
      delivered (stream strayItems)
          (transcript (fun _ _ => .error .fileNotFound) (stream strayItems)) <+:
        strayItems.filterMap Item.message? ∧
      (merge (transcript (fun _ _ => .error .fileNotFound) (stream strayItems))).Alike
        (merge (transcript (fun _ _ => .error .fileNotFound)
          (stream (strayItems.filter fun item => item.message?.isSome)))) := by
  have hmessages : strayItems.filterMap Item.message? = [opening, naming, askOfLog] := by
    rw [← (interspersed_stream strayItems).filterMap_eq, frames_strayItems]
    rfl
  have hwhole := resynchronizes (fun _ _ => .error .fileNotFound) strayItems
  exact ⟨hmessages, hwhole.delivers, hwhole.ignores fun _ _ _ => rfl⟩

end Session

end LittleMan
