import LittleMan.Proofs.Session.Answers

/-! Where the settings of a document come from. A turn without an answer leaves a document those it has, or
leaves it none and asks for them; an answer gives settings to the one document that it is about. -/

namespace LittleMan

open Handler Turn

def AsksFor (messages : List Json) (uri : Json) : Prop :=
  ∃ n u, settingsRequest n u ∈ messages ∧ u.key = uri.key

theorem asksFor_append {messages messages' : List Json} {uri : Json} :
    AsksFor (messages ++ messages') uri ↔ AsksFor messages uri ∨ AsksFor messages' uri := by
  simp only [AsksFor, List.mem_append, or_and_right, exists_or]

theorem not_asksFor {messages : List Json} (hno : ∀ m ∈ messages, requestNumber? m = none)
    (uri : Json) : ¬ AsksFor messages uri :=
  fun ⟨n, u, hm, _⟩ => settingsRequest_not_mem hno n u hm

/-- A document after some messages are written, and the settings it had before. -/
inductive Traced (server server' : Server) (messages : List Json) (d : Document) : Prop
  | kept (x : Document) (hx : x ∈ server.documents) (huri : x.uri = d.uri)
      (hsettings : x.settings = d.settings) (hno : ¬ AsksFor messages d.uri)
  | asked (hnone : d.settings = none)
      (hask : server'.asksSettings = true → AsksFor messages d.uri)

namespace Turn

variable {t t' u : Turn}

/-- The documents of a turn and what it writes, told from the turn before. -/
def Traces (t t' : Turn) : Prop :=
  ∃ messages, t'.out = t.out ++ messages ∧
    ∀ d ∈ t'.server.documents, Traced t.server t'.server messages d

theorem traces_ask {uri : Json} (hout : u.out = t.out)
    (hdocs : ∀ d ∈ u.server.documents, d.uri.key = uri.key ∧ d.settings = none ∨
      d.uri.key ≠ uri.key ∧ ∃ x ∈ t.server.documents, x.uri = d.uri ∧ x.settings = d.settings) :
    Traces t (u.ask uri) := by
  unfold ask
  split
  · refine ⟨_, by rw [hout], fun d hd => ?_⟩
    rcases hdocs d hd with ⟨hkey, hnone⟩ | ⟨hkey, x, hx, huri, hsettings⟩
    · exact .asked hnone fun _ => ⟨_, uri, List.mem_singleton.2 rfl, hkey.symm⟩
    · refine .kept x hx huri hsettings ?_
      rintro ⟨n, v, hm, hv⟩
      obtain ⟨-, rfl⟩ := settingsRequest_inj.1 (List.mem_singleton.1 hm)
      exact hkey hv.symm
  · next hasks =>
    refine ⟨[], by rw [hout, List.append_nil], fun d hd => ?_⟩
    rcases hdocs d hd with ⟨hkey, hnone⟩ | ⟨-, x, hx, huri, hsettings⟩
    · exact .asked hnone fun h => absurd h hasks
    · exact .kept x hx huri hsettings (not_asksFor (by simp) _)

theorem Act.traces (ha : Act t t') (hc : t.server.Consistent) : Traces t t' := by
  have hnothing : ∀ uri, ¬ AsksFor [] uri := not_asksFor (by simp)
  cases ha with
  | tell messages lines h =>
    exact ⟨messages, rfl, fun d hd => .kept d hd rfl rfl (not_asksFor h _)⟩
  | register =>
    refine ⟨_, rfl, fun d hd => .kept d hd rfl rfl ?_⟩
    rintro ⟨n, v, hm, -⟩
    have habs := List.mem_singleton.1 hm
    simp [settingsRequest, registration] at habs
  | opened doc hi hnone huri =>
    refine traces_ask rfl fun d hd => ?_
    by_cases hkey : d.uri.key = doc.uri.key
    · have hput := hc.put hi huri
      obtain rfl := hput.eq_of_key_eq hd (Server.self_mem_putDocument doc _) hkey
      exact Or.inl ⟨rfl, hnone⟩
    · rcases Server.mem_putDocument hd with rfl | hd
      · exact absurd rfl hkey
      · exact Or.inr ⟨hkey, d, hd, rfl, rfl⟩
  | askAgain uri =>
    refine traces_ask rfl fun d hd => ?_
    obtain ⟨x, hx, rfl⟩ := List.mem_map.1 hd
    have hsame := Json.same_iff_key_eq (hc.named x hx) uri
    split
    · next h => exact Or.inl ⟨hsame.1 h, rfl⟩
    · next h => exact Or.inr ⟨fun hkey => h (hsame.2 hkey), x, hx, rfl, rfl⟩
  | edit uri text version =>
    refine ⟨[], (List.append_nil _).symm, fun d hd => ?_⟩
    obtain ⟨x, hx, rfl⟩ := List.mem_map.1 hd
    refine .kept x hx ?_ ?_ (hnothing _)
    · split <;> rfl
    · split <;> rfl
  | close uri =>
    refine ⟨[], (List.append_nil _).symm, fun d hd => ?_⟩
    exact .kept d (List.mem_filter.1 hd).1 rfl rfl (hnothing _)
  | _ => exact ⟨[], (List.append_nil _).symm, fun d hd => .kept d hd rfl rfl (hnothing _)⟩

theorem Act.asksSettings_eq (ha : Act t t') (hi : t.server.initialized = true) :
    t'.server.initialized = true ∧ t'.server.asksSettings = t.server.asksSettings := by
  have hask : ∀ (u : Turn) (uri : Json), (u.ask uri).server.initialized = u.server.initialized ∧
      (u.ask uri).server.asksSettings = u.server.asksSettings := by
    intro u uri
    unfold ask
    split <;> exact ⟨rfl, rfl⟩
  cases ha with
  | start _ _ hno =>
    rw [hi] at hno
    cases hno
  | opened doc =>
    obtain ⟨hinit, hasks⟩ := hask (t.put doc) doc.uri
    exact ⟨hinit.trans hi, hasks⟩
  | askAgain uri =>
    obtain ⟨hinit, hasks⟩ := hask (t.forget uri) uri
    exact ⟨hinit.trans hi, hasks⟩
  | _ => exact ⟨hi, rfl⟩

theorem Acts.asksSettings_eq (ha : Acts t t') (hi : t.server.initialized = true) :
    t'.server.initialized = true ∧ t'.server.asksSettings = t.server.asksSettings := by
  induction ha with
  | refl => exact ⟨hi, rfl⟩
  | tail _ hact ih =>
    obtain ⟨hinit, hasks⟩ := hact.asksSettings_eq ih.1
    exact ⟨hinit, hasks.trans ih.2⟩

theorem Acts.traces (ha : Acts t t') (hc : t.server.Consistent) : Traces t t' := by
  -- What the last act keeps is traced to the acts before it.
  induction ha with
  | refl =>
    exact ⟨[], (List.append_nil _).symm,
      fun d hd => .kept d hd rfl rfl (not_asksFor (by simp) _)⟩
  | @tail u v hacts hact ih =>
    obtain ⟨messages, hout, hu⟩ := ih
    have hcu : u.server.Consistent := Acts.consistent hacts hc
    obtain ⟨messages', hout', hv⟩ := hact.traces hcu
    refine ⟨messages ++ messages', by rw [hout', hout, List.append_assoc], fun d hd => ?_⟩
    cases hv d hd with
    | asked hnone hask => exact .asked hnone fun h => asksFor_append.2 (Or.inr (hask h))
    | kept x hx huri hsettings hno =>
      cases hu x hx with
      | kept y hy huri' hsettings' hno' =>
        refine .kept y hy (huri'.trans huri) (hsettings'.trans hsettings) fun h => ?_
        rcases asksFor_append.1 h with h | h
        · exact hno' (huri ▸ h)
        · exact hno h
      | asked hnone hask =>
        refine .asked (hsettings ▸ hnone) fun h => asksFor_append.2 (Or.inl ?_)
        rw [(hact.asksSettings_eq (hcu.initialized_of_mem hx)).2] at h
        exact huri ▸ hask h

end Turn

namespace Session

variable {server : Server} {left : List (Nat × Json)} {uri result : Json}

theorem documents_update (hs : server.Consistent) {front back : List Document} {doc : Document}
    (hsplit : server.documents = front ++ doc :: back) (hsame : doc.uri.same uri = true)
    (f : Document → Document) : (server.update uri f).documents = front ++ f doc :: back := by
  have hdistinct := hs.distinct
  rw [hsplit, Server.keys, List.map_append, List.map_cons, List.nodup_middle, ← List.map_append]
    at hdistinct
  have hother : ∀ docs : List Document, docs ⊆ front ++ back →
      docs.map (fun d => if d.uri.same uri then f d else d) = docs := by
    intro docs hdocs
    refine (List.map_congr_left fun d hd => if_neg fun h => ?_).trans (List.map_id docs)
    have hmem : d ∈ server.documents := by
      have hd' := hdocs hd
      rw [List.mem_append] at hd'
      simp [hsplit, hd'.imp_right Or.inr]
    have hkey : d.uri.key = doc.uri.key :=
      ((Json.same_iff_key_eq (hs.named d hmem) uri).1 h).trans
        ((Json.same_iff_key_eq (hs.named doc (by simp [hsplit])) uri).1 hsame).symm
    exact (List.nodup_cons.1 hdistinct).1 (List.mem_map.2 ⟨d, hdocs hd, hkey⟩)
  rw [Server.update, hsplit, List.map_append, List.map_cons, if_pos hsame,
    hother front (List.subset_append_left front back), hother back (List.subset_append_right front back)]

theorem settled_documents (hs : server.Consistent) :
    (settled server left uri result).documents = server.documents ∨
      ∃ front doc back, server.documents = front ++ doc :: back ∧ doc.uri.same uri = true ∧
        (settled server left uri result).documents =
          front ++ { doc with settings := some (answeredSettings result) } :: back := by
  unfold settled
  split
  · exact Or.inl rfl
  · cases hfind : server.documents.find? fun d => d.uri.same uri with
    | none =>
      rw [update_of_find?_none _ hfind]
      exact Or.inl rfl
    | some doc =>
      obtain ⟨front, back, hsplit⟩ := List.append_of_mem (List.mem_of_find?_eq_some hfind)
      have hsame : doc.uri.same uri = true := by simpa using List.find?_some hfind
      exact Or.inr ⟨front, doc, back, hsplit, hsame, documents_update hs hsplit hsame _⟩

/-- Settings that a document has after a turn it had before, or it got them in an answer. -/
theorem Outcome.settings {frame : Frame} {u : Turn} (h : Outcome server frame u)
    (hs : server.Consistent) {d : Document} {v : Settings} (hd : d ∈ u.server.documents)
    (hv : d.settings = some v) :
    (∃ x ∈ server.documents, x.uri = d.uri ∧ x.settings = some v) ∨
      ∃ n uri id result, frame.answer? = some (id, result) ∧ (n, uri) ∈ server.pending ∧
        Json.same (.int n) id = true ∧ d.uri.same uri = true ∧ v = answeredSettings result := by
  cases h with
  | acts _ t hacts hserver =>
    rw [hserver] at hd
    obtain ⟨messages, -, htraced⟩ := Acts.traces hacts hs
    cases htraced d hd with
    | kept x hx huri hsettings => exact Or.inl ⟨x, hx, huri, hsettings.trans hv⟩
    | asked hnone =>
      rw [hv] at hnone
      cases hnone
  | ignored _ _ _ _ hserver =>
    rw [hserver] at hd
    exact Or.inl ⟨d, hd, rfl, hv⟩
  | settled id result before after n uri hf hp hn hserver =>
    rw [hserver] at hd
    rcases settled_documents hs with hdocs | ⟨front, doc, back, hsplit, hsame, hdocs⟩
    · rw [hdocs] at hd
      exact Or.inl ⟨d, hd, rfl, hv⟩
    · rw [hdocs, List.mem_append, List.mem_cons] at hd
      rcases hd with hd | rfl | hd
      · exact Or.inl ⟨d, by simp [hsplit, hd], rfl, hv⟩
      · exact Or.inr ⟨n, uri, id, result, hf, by simp [hp], hn, hsame, (Option.some.inj hv).symm⟩
      · exact Or.inl ⟨d, by simp [hsplit, hd], rfl, hv⟩

end Session

end LittleMan
