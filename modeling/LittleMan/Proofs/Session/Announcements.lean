import LittleMan.Proofs.Session.Failures

/-! The messages that publish diagnostics, in full. Each document that is published is told of in one
message of its own, which names it. -/

namespace LittleMan

open Handler

def paramsOf : Json → Json
  | .obj fields => (Json.lookup "params" fields).getD .null
  | _ => .null

/-- The parameters of the messages that publish diagnostics of a document, in order. -/
def publishedFor (uri : Json) (out : List Json) : List Json :=
  (out.filter fun message => (publication? message).any (·.1 = uri)).map paramsOf

theorem publishedFor_append (uri : Json) (out out' : List Json) :
    publishedFor uri (out ++ out') = publishedFor uri out ++ publishedFor uri out' := by
  rw [publishedFor, List.filter_append, List.map_append]
  rfl

theorem publishedFor_of_publications {out : List Json} (h : publications out = []) (uri : Json) :
    publishedFor uri out = [] := by
  have hnone : ∀ m ∈ out, publication? m = none := List.filterMap_eq_nil_iff.1 h
  rw [publishedFor, List.filter_eq_nil_iff.2 fun m hm => by simp [hnone m hm]]
  rfl

/-- The diagnostics of the document can be sent. -/
def Document.IsSendable (doc : Document) (common : Settings) : Prop :=
  ∃ items, doc.items common = .ok items

/-- The message that publishes diagnostics of a document. -/
def announcement (doc : Document) (items : List Json) : Json :=
  .obj [("jsonrpc", .str "2.0"), ("method", .str "textDocument/publishDiagnostics"),
    ("params", .obj (("uri", doc.uri) :: ("diagnostics", .arr items) ::
      if doc.version = .null then [] else [("version", doc.version)]))]

theorem publication?_announcement (doc : Document) (items : List Json) :
    publication? (announcement doc items) = some (doc.uri, .arr items) := rfl

namespace Session

variable {t : Turn} {doc : Document} {docs : List Document}

def analyzing (doc : Document) : Text :=
  "Analyzing " ++ doc.uri.display ++ " (version " ++ doc.version.display ++ ")"

theorem publish_apply {items : List Json} (h : doc.items t.server.settings = .ok items) :
    publish doc t = (.ok (),
      { t with out := t.out ++ [announcement doc items], log := t.log ++ [analyzing doc] }) := by
  simp only [publish, bind_apply, liftM_apply, Handler.log, Handler.server, h]
  rfl

/-- What is published of a document that can be sent. -/
def told (common : Settings) (doc : Document) : Json :=
  announcement doc ((doc.items common).toOption.getD [])

theorem publish_of_isSendable (h : doc.IsSendable t.server.settings) : publish doc t = (.ok (),
    { t with out := t.out ++ [told t.server.settings doc], log := t.log ++ [analyzing doc] }) := by
  obtain ⟨items, hitems⟩ := h
  rw [publish_apply hitems, told, hitems]
  rfl

theorem each_publish_of_isSendable (h : ∀ d ∈ docs, d.IsSendable t.server.settings) :
    each publish docs t = (.ok (),
      { t with
        out := t.out ++ docs.map (told t.server.settings)
        log := t.log ++ docs.map analyzing }) := by
  induction docs generalizing t with
  | nil => rw [List.map_nil, List.map_nil, List.append_nil, List.append_nil]; rfl
  | cons doc docs ih =>
    have hhead := publish_of_isSendable (t := t) (h doc List.mem_cons_self)
    have hstep : each publish (doc :: docs) t = each publish docs (publish doc t).2 :=
      bind_of_ok _ (by rw [hhead])
    have htail := ih (t := (publish doc t).2) (by
      rw [hhead]
      exact fun d hd => h d (List.mem_cons_of_mem _ hd))
    rw [hstep, htail, hhead]
    simp only [List.map_cons, List.append_assoc, List.singleton_append]

theorem publishedFor_map_told (uri : Json) (common : Settings) (docs : List Document) :
    publishedFor uri (docs.map (told common)) =
      publishedFor uri ((docs.filter fun d => d.uri = uri).map (told common)) := by
  have htold : ((fun message => (publication? message).any (·.1 = uri)) ∘ told common) =
      fun d => decide (d.uri = uri) := by
    funext d
    rw [Function.comp_apply, told, publication?_announcement, Option.any_some]
  rw [publishedFor, publishedFor, List.filter_map, List.filter_map, htold, List.filter_filter]
  simp only [Bool.and_self]

end Session

end LittleMan
