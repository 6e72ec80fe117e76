import LittleMan.Proofs.LineBreaks
import LittleMan.Proofs.LineChanges
import LittleMan.Proofs.Session.Effects

/-! Diagnostics of a file, and of the same text sent by an editor. A file is read with line feeds for all
of its breaks and an editor sends them as they are, but the lines are the same. -/

namespace LittleMan

open Handler Json

/-- The file at the path holds this text. -/
def FileReader.Holds (files : FileReader) (path : Text) (raw : String) : Prop :=
  ∃ content, String.fromUTF8? ⟨content.toArray⟩ = some raw ∧ files path = textOfFile content

theorem FileReader.Holds.read {files : FileReader} {path : Text} {raw : String}
    (h : files.Holds path raw) : files path = .ok (normalizeBreaks (Text.toList raw)) := by
  obtain ⟨content, hraw, hread⟩ := h
  rw [hread, textOfFile, hraw]

theorem Program.reportFile_of_holds {files : FileReader} {path raw : String}
    (h : files.Holds path raw) (hints : Bool) :
    reportFile files hints path =
      Report.check (Source.named (some (baseName path)) (Text.toList raw)) hints := by
  rw [reportFile, h.read]
  exact Report.check_normalizeBreaks _ _ hints

theorem Diagnostic.toJson_congr {s s' : Source} (h : s'.lines = s.lines) (d : Diagnostic) :
    d.toJson s' = d.toJson s := by
  simp only [Diagnostic.toJson, Span.toJson, rangeJson, Position.toJson, Source.columnText, h]

namespace Session

variable {files : FileReader} {server : Server} {fields fields' : List (Text × Json)}
variable {uri : Json} {name path : Text} {raw : String} {doc : Document}

theorem items_normalizeBreaks (uri version : Json) (raw : String) (common : Settings) :
    ({ uri, text := .str (Text.ofList (normalizeBreaks (Text.toList raw))) } : Document).items common =
      ({ uri, text := .str raw, version } : Document).items common := by
  have hlines : ∀ name : Text,
      ({ name, text := normalizeBreaks (Text.toList raw) } : Source).lines =
        ({ name, text := Text.toList raw } : Source).lines :=
    fun _ => linesOf_normalizeBreaks (Text.toList raw)
  have htold : ∀ name : Text,
      Diagnostic.toJson { name, text := normalizeBreaks (Text.toList raw) } =
        Diagnostic.toJson { name, text := Text.toList raw } :=
    fun name => funext (Diagnostic.toJson_congr (hlines name))
  simp only [Document.items, Document.source?, bind, Except.bind, analyze_congr (hlines _), htold]

/-- The message opens a document with this text. -/
structure OpensText (fields : List (Text × Json)) (uri : Json) (raw : String) : Prop where
  method : lookup "method" fields = some (.str "textDocument/didOpen")
  opening : ∃ version, openingOf (messageParams fields) = .ok { uri, text := .str raw, version }

/-- The message asks for the diagnostics of a document. -/
structure PullsDiagnostics (fields : List (Text × Json)) (uri : Json) : Prop where
  method : lookup "method" fields = some (.str "textDocument/diagnostic")
  uri : uriOf (messageParams fields) = .ok uri

def diagnosticReply (id : Json) (items : List Json) : Json :=
  .obj [("jsonrpc", .str "2.0"), ("id", id),
    ("result", .obj [("kind", .str "full"), ("items", .arr items)])]

/-- The client is told of the same diagnostics of the document in both turns, or both end the session. -/
inductive SameReport (uri id : Json) (opened pulled : Turn) : Prop
  | told (items : List Json) (hopened : publications opened.out = [(uri, .arr items)])
      (hpulled : pulled.out = [diagnosticReply id items])
      (hfault : opened.fault = none ∧ pulled.fault = none)
  | broken (e : Fault) (hfault : opened.fault = some e ∧ pulled.fault = some e)

theorem opening_ask (server : Server) (doc : Document) :
    ((({ server } : Turn).put doc).ask doc.uri).server.settings = server.settings ∧
      publications ((({ server } : Turn).put doc).ask doc.uri).out = [] ∧
      ((({ server } : Turn).put doc).ask doc.uri).fault = none := by
  unfold Turn.ask
  split <;> exact ⟨rfl, rfl, rfl⟩

theorem publications_of_opening (files : FileReader) (hi : server.initialized = true)
    (hm : lookup "method" fields = some (.str "textDocument/didOpen"))
    (hopen : openingOf (messageParams fields) = .ok doc) {items : List Json}
    (hitems : doc.items server.settings = .ok items) :
    publications (turn files server (.message fields)).out = [(doc.uri, .arr items)] ∧
      (turn files server (.message fields)).fault = none := by
  obtain ⟨hsettings, hquiet, hfault⟩ := opening_ask server doc
  have hrun : handle files "textDocument/didOpen" (messageId fields) (messageParams fields)
      { server } = publish doc ((({ server } : Turn).put doc).ask doc.uri) := by
    show didOpen _ _ = _
    rw [didOpen_apply, hopen]
    rfl
  rw [publish_apply (hsettings.symm ▸ hitems)] at hrun
  rw [turn_of_handled hi hm hrun]
  refine ⟨?_, hfault⟩
  rw [publications_append, hquiet]
  rfl

theorem fault_of_handle_error (hi : server.initialized = true) {method : String} {t : Turn}
    {e : Fault} (hm : lookup "method" fields = some (.str method))
    (h : handle files method (messageId fields) (messageParams fields) { server } = (.error e, t))
    (he : isInvalidParams e = false) : (turn files server (.message fields)).fault = some e := by
  rw [turn_of_method files hi hm, h]
  simp only [he, Bool.false_eq_true, if_false]

theorem fault_of_opening (files : FileReader) (hi : server.initialized = true)
    (hm : lookup "method" fields = some (.str "textDocument/didOpen"))
    (hopen : openingOf (messageParams fields) = .ok doc) {e : Fault}
    (hitems : doc.items server.settings = .error e) (he : isInvalidParams e = false) :
    (turn files server (.message fields)).fault = some e := by
  obtain ⟨hsettings, -, -⟩ := opening_ask server doc
  have hfail : (handle files "textDocument/didOpen" (messageId fields) (messageParams fields)
      { server }).1 = .error e := by
    show (didOpen _ _).1 = _
    rw [didOpen_apply, hopen]
    exact publish_error_iff.2 (hsettings.symm ▸ hitems)
  exact fault_of_handle_error hi hm (Prod.ext hfail rfl) he

theorem handle_of_pull {text : List CodePoint} (hpull : PullsDiagnostics fields (.str name))
    (hfind : server.find? (.str name) = .ok none) (hpath : pathOfUri? name = some path)
    (hne : path ≠ "") (hfile : files path = .ok text) :
    handle files "textDocument/diagnostic" (messageId fields) (messageParams fields) { server } =
      ((liftM (({ uri := .str name, text := .str (Text.ofList text) } : Document).items
        server.settings) : Handler (List Json)) >>= fun items =>
          write (diagnosticReply (messageId fields) items)) { server } := by
  rw [handle_diagnostic, bind_apply, liftM_apply, hpull.uri]
  obtain ⟨chars⟩ := path
  cases chars with
  | nil => exact absurd rfl hne
  | cons c chars =>
    simp only [diagnostic, bind_apply, liftM_apply, Handler.server, hfind, hpath, hfile]
    rfl

theorem grave_of_items {version : Json} {common : Settings} {e : Fault}
    (h : ({ uri, text := .str raw, version } : Document).items common = .error e) : Grave e := by
  rcases bind_eq_error_iff.1 h with h | ⟨s, -, h⟩
  · cases h
  · rcases bind_eq_error_iff.1 h with h | ⟨a, -, h⟩
    · obtain rfl := analyze_error h
      rfl
    · obtain ⟨d, -, h⟩ := exists_error_of_mapM h
      obtain rfl := Diagnostic.toJson_error h
      rfl

theorem sameReport_of_holds (hi : server.initialized = true)
    (hopen : OpensText fields (.str name) raw) (hpull : PullsDiagnostics fields' (.str name))
    (hfind : server.find? (.str name) = .ok none) (hpath : pathOfUri? name = some path)
    (hne : path ≠ "") (hfile : files.Holds path raw) :
    SameReport (.str name) (messageId fields') (turn files server (.message fields))
      (turn files server (.message fields')) := by
  obtain ⟨version, hopening⟩ := hopen.opening
  have hrun := handle_of_pull hpull hfind hpath hne hfile.read
  rw [items_normalizeBreaks (.str name) version] at hrun
  cases hitems : ({ uri := .str name, text := .str raw, version } : Document).items
      server.settings with
  | ok items =>
    rw [hitems] at hrun
    obtain ⟨hpublished, hfault⟩ := publications_of_opening files hi hopen.method hopening hitems
    refine .told items hpublished ?_ ⟨hfault, ?_⟩
    · rw [turn_of_handled hi hpull.method hrun]
      rfl
    · rw [turn_of_handled hi hpull.method hrun]
  | error e =>
    rw [hitems] at hrun
    have he := grave_of_items hitems
    exact .broken e ⟨fault_of_opening files hi hopen.method hopening hitems he,
      fault_of_handle_error hi hpull.method hrun he⟩

/-- A file is reported on as its text is that is checked, or sent to the server, with its own breaks. -/
structure ReportsAsSent (files : FileReader) (path : Text) (raw : String) : Prop where
  printed : ∀ (shown : String) (hints : Bool), path = shown → Program.reportFile files hints shown =
    Report.check (Source.named (some (Program.baseName shown)) (Text.toList raw)) hints
  pulled : ∀ {server : Server} {fields fields' : List (Text × Json)} {name : Text},
    server.initialized = true → server.find? (.str name) = .ok none →
      pathOfUri? name = some path → path ≠ "" → OpensText fields (.str name) raw →
        PullsDiagnostics fields' (.str name) →
          SameReport (.str name) (messageId fields') (turn files server (.message fields))
            (turn files server (.message fields'))

/-- Changes that leave the records alone leave what is reported alone, and so do other line breaks,
wherever the text comes from. -/
theorem reports_of_silent_changes {s s' : Source} {changes : List LineChange}
    (hs : s.lines = LineChange.before changes) (hs' : s'.lines = LineChange.after changes)
    (hsilent : ∀ c ∈ changes, c.IsSilent) :
    (((∃ a, analyze s = .ok a) ↔ ∃ a', analyze s' = .ok a') ∧
      ∀ a a', analyze s = .ok a → analyze s' = .ok a' →
        List.Forall₂ (LineChange.Moves changes) a.diagnostics a'.diagnostics) ∧
    (∀ (t : List CodePoint) (name name' : Option Text),
      analyze (Source.named name (normalizeBreaks t)) = analyze (Source.named name' t)) ∧
    ∀ (files : FileReader) (path : Text) (raw : String), files.Holds path raw →
      ReportsAsSent files path raw := by
  refine ⟨LineChange.analyze_of_silent_changes hs hs' hsilent, fun t name name' => ?_,
    fun files path raw hfile => ⟨fun shown hints hpath => ?_, ?_⟩⟩
  · exact analyze_congr (linesOf_normalizeBreaks t)
  · subst hpath
    exact Program.reportFile_of_holds hfile hints
  · intro server fields fields' name hi hfind hpath hne hopen hpull
    exact sameReport_of_holds hi hopen hpull hfind hpath hne hfile

def tidying : List LineChange :=
  [.keep (Text.toList "X LDA #5000 ;a") (Text.toList "X LDA #5000 "),
    .delete (Text.toList "just words"), .insert [], .keep (Text.toList "XYZ") (Text.toList "XYZ; LDA")]

def untidyLines : Source := Source.named none (Text.toList "X LDA #5000 ;a\r\njust words\rXYZ")

def tidyLines : Source := Source.named none (Text.toList "X LDA #5000 \n\nXYZ; LDA")

def fileOfUntidyLines : FileReader := fun _ =>
  textOfFile "X LDA #5000 ;a\r\njust words\rXYZ".toUTF8.toList

def openingOfUntidyLines : List (Text × Json) :=
  [("method", .str "textDocument/didOpen"),
    ("params", .obj [("textDocument", .obj [("uri", .str "file:///p"),
      ("text", .str "X LDA #5000 ;a\r\njust words\rXYZ")])])]

def pullOfUntidyLines : List (Text × Json) :=
  [("id", .int 1), ("method", .str "textDocument/diagnostic"),
    ("params", .obj [("textDocument", .obj [("uri", .str "file:///p")])])]

theorem reports_of_tidying :
    ∃ a a', analyze untidyLines = .ok a ∧ analyze tidyLines = .ok a' ∧ a.diagnostics ≠ [] ∧
      List.Forall₂ (LineChange.Moves tidying) a.diagnostics a'.diagnostics ∧
      SameReport (.str "file:///p") (.int 1)
        (turn fileOfUntidyLines { initialized := true } (.message openingOfUntidyLines))
        (turn fileOfUntidyLines { initialized := true } (.message pullOfUntidyLines)) := by
  have hsilent : ∀ c ∈ tidying, c.IsSilent := by decide +kernel
  have hlines : untidyLines.lines = LineChange.before tidying ∧
      tidyLines.lines = LineChange.after tidying := by decide +kernel
  obtain ⟨a, a', ha, ha', hne⟩ : ∃ a a', analyze untidyLines = .ok a ∧
      analyze tidyLines = .ok a' ∧ a.diagnostics ≠ [] := by
    refine ⟨_, _, rfl, rfl, ?_⟩
    decide +kernel
  obtain ⟨⟨-, hmoved⟩, -, hfile⟩ := reports_of_silent_changes hlines.1 hlines.2 hsilent
  have hholds : FileReader.Holds fileOfUntidyLines "/p"
      "X LDA #5000 ;a\r\njust words\rXYZ" := by
    refine ⟨_, ?_, rfl⟩
    decide +kernel
  have hpath : pathOfUri? "file:///p" = some "/p" := by decide +kernel
  have hopen : OpensText openingOfUntidyLines (.str "file:///p")
      "X LDA #5000 ;a\r\njust words\rXYZ" := ⟨rfl, .null, rfl⟩
  have hpull : PullsDiagnostics pullOfUntidyLines (.str "file:///p") := ⟨rfl, rfl⟩
  refine ⟨a, a', ha, ha', hne, hmoved a a' ha ha', ?_⟩
  exact (hfile _ _ _ hholds).pulled rfl rfl hpath (by decide) hopen hpull

end Session

end LittleMan
