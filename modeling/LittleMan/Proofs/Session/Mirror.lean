import LittleMan.Proofs.Session.Silence

/-! What a client sees of the documents. The diagnostics that were published last for an open document
are those of its text and its limit now, and of any other document there are none. -/

namespace LittleMan

/-- The diagnostics that were published last under a name. -/
def lastShown (shown : List (Json × Json)) (uri : Json) : Option Json :=
  ((shown.filter (·.1 = uri)).getLast?).map (·.2)

theorem lastShown_concat (shown : List (Json × Json)) (name items uri : Json) :
    lastShown (shown ++ [(name, items)]) uri =
      if name = uri then some items else lastShown shown uri := by
  by_cases h : name = uri <;> simp [lastShown, List.filter_append, h]

/-- The open documents and what has been shown of them. -/
structure Mirrors (server : Server) (shown : List (Json × Json)) : Prop where
  named : ∀ d ∈ server.documents, ∃ name, d.uri = .str name
  distinct : server.documents.Pairwise fun a b => a.uri ≠ b.uri
  started : server.documents ≠ [] → server.initialized = true
  current : ∀ d ∈ server.documents, ∃ items, d.items server.settings = .ok items ∧
    lastShown shown d.uri = some (.arr items)
  cleared : ∀ uri items, (∀ d ∈ server.documents, d.uri ≠ uri) →
    lastShown shown uri = some items → items = .arr []

theorem mirrors_nil : Mirrors {} [] where
  named := by simp
  distinct := List.Pairwise.nil
  started := by simp
  current := by simp
  cleared := by simp [lastShown]

theorem Mirrors.quiet {t t' : Turn} {shown : List (Json × Json)}
    (h : Mirrors t.server (shown ++ publications t.out)) (hq : Quiet t t') :
    Mirrors t'.server (shown ++ publications t'.out) := by
  have hd := hq.documents
  have hs := hq.settings
  rw [hq.publications]
  refine ⟨?_, ?_, ?_, ?_, ?_⟩
  · rw [hd]
    exact h.named
  · rw [hd]
    exact h.distinct
  · rw [hd]
    exact fun hne => hq.initialized (h.started hne)
  · rw [hd, hs]
    exact h.current
  · rw [hd]
    exact h.cleared

theorem Json.same_str_iff (a : Text) (v : Json) :
    Json.same (.str a) v = true ↔ Json.str a = v := by
  cases v <;> simp [Json.same, Json.number?]

theorem Mirrors.same_iff {server : Server} {shown : List (Json × Json)} (h : Mirrors server shown)
    {d : Document} (hd : d ∈ server.documents) (uri : Json) :
    d.uri.same uri = true ↔ d.uri = uri := by
  obtain ⟨name, hn⟩ := h.named d hd
  rw [hn, Json.same_str_iff]

theorem Mirrors.find?_eq_some_iff {server : Server} {shown : List (Json × Json)}
    (h : Mirrors server shown) {uri : Json} {doc : Document} :
    server.find? uri = .ok (some doc) ↔ doc ∈ server.documents ∧ doc.uri = uri := by
  have hsearch : server.documents.find? (fun d => d.uri.same uri) = some doc ↔
      doc ∈ server.documents ∧ doc.uri = uri := by
    constructor
    · intro hf
      have hm := List.mem_of_find?_eq_some hf
      have hs := List.find?_some hf
      exact ⟨hm, (h.same_iff hm uri).1 hs⟩
    · rintro ⟨hm, hu⟩
      obtain ⟨before, after, hl⟩ := List.append_of_mem hm
      have hp := h.distinct
      rw [hl] at hp
      have hne := (List.pairwise_append.1 hp).2.2
      refine List.find?_eq_some_iff_append.2 ⟨(h.same_iff hm uri).2 hu, before, after, hl, ?_⟩
      intro d hd
      have hmem : d ∈ server.documents := by simp [hl, hd]
      have hdiff : d.uri ≠ uri := hu ▸ hne d hd doc List.mem_cons_self
      have hsame : ¬ d.uri.same uri = true := fun hs => hdiff ((h.same_iff hmem uri).1 hs)
      simpa using hsame
  rw [← hsearch, Server.find?]
  cases hs : uri.isScalar with
  | true => simp [Json.requireScalar, hs, Except.map]
  | false =>
    have hnone : server.documents.find? (fun d => d.uri.same uri) ≠ some doc := by
      intro hf
      obtain ⟨hm, rfl⟩ := hsearch.1 hf
      obtain ⟨name, hn⟩ := h.named doc hm
      simp [hn, Json.isScalar] at hs
    simp [Json.requireScalar, hs, Except.map, hnone]

/-- The documents after one is opened or changed: it stands in the place of the one of its name. -/
structure Puts (doc : Document) (docs docs' : List Document) : Prop where
  mem_iff : ∀ d, d ∈ docs' ↔ d = doc ∨ d ∈ docs ∧ d.uri ≠ doc.uri
  distinct : docs'.Pairwise fun a b => a.uri ≠ b.uri

theorem puts_putDocument {doc : Document} {docs : List Document} {name : Text}
    (hdoc : doc.uri = .str name) (hn : ∀ d ∈ docs, ∃ name, d.uri = .str name)
    (hp : docs.Pairwise fun a b => a.uri ≠ b.uri) :
    Puts doc docs (Server.putDocument doc docs) := by
  induction docs with
  | nil => exact ⟨by simp [Server.putDocument], by simp [Server.putDocument]⟩
  | cons d docs ih =>
    obtain ⟨hhead, htail⟩ := List.pairwise_cons.1 hp
    have hrest := ih (fun x hx => hn x (List.mem_cons_of_mem _ hx)) htail
    obtain ⟨dname, hdname⟩ := hn d List.mem_cons_self
    have hsame : d.uri.same doc.uri = true ↔ d.uri = doc.uri := by rw [hdname, Json.same_str_iff]
    by_cases he : d.uri = doc.uri
    · have hput : Server.putDocument doc (d :: docs) = doc :: docs := by
        rw [Server.putDocument, if_pos (hsame.2 he)]
      rw [hput]
      refine ⟨fun x => ?_, List.pairwise_cons.2 ⟨fun x hx => he ▸ hhead x hx, htail⟩⟩
      simp only [List.mem_cons]
      constructor
      · rintro (rfl | hx)
        · exact Or.inl rfl
        · exact Or.inr ⟨Or.inr hx, fun hxe => hhead x hx (he.trans hxe.symm)⟩
      · rintro (rfl | ⟨rfl | hx, hne⟩)
        · exact Or.inl rfl
        · exact absurd he hne
        · exact Or.inr hx
    · have hput : Server.putDocument doc (d :: docs) = d :: Server.putDocument doc docs := by
        rw [Server.putDocument, if_neg (fun hs => he (hsame.1 hs))]
      rw [hput]
      refine ⟨fun x => ?_, List.pairwise_cons.2 ⟨fun x hx => ?_, hrest.distinct⟩⟩
      · simp only [List.mem_cons, hrest.mem_iff]
        constructor
        · rintro (rfl | rfl | ⟨hx, hne⟩)
          · exact Or.inr ⟨Or.inl rfl, he⟩
          · exact Or.inl rfl
          · exact Or.inr ⟨Or.inr hx, hne⟩
        · rintro (rfl | ⟨rfl | hx, hne⟩)
          · exact Or.inr (Or.inl rfl)
          · exact Or.inl rfl
          · exact Or.inr (Or.inr ⟨hx, hne⟩)
      · rcases (hrest.mem_iff x).1 hx with rfl | ⟨hx, -⟩
        · exact he
        · exact hhead x hx

theorem Mirrors.puts_update {server : Server} {shown : List (Json × Json)} (h : Mirrors server shown)
    {f : Document → Document} {doc : Document} (hd : doc ∈ server.documents)
    (hf : ∀ d, (f d).uri = d.uri) :
    Puts (f doc) server.documents (server.update doc.uri f).documents := by
  have hmap : (server.update doc.uri f).documents =
      server.documents.map fun d => if d.uri = doc.uri then f d else d := by
    refine List.map_congr_left fun d hm => ?_
    simp only [h.same_iff hm doc.uri]
  have hunique : ∀ d ∈ server.documents, d.uri = doc.uri → d = doc := by
    intro d hm hu
    have hfind := h.find?_eq_some_iff.2 ⟨hm, hu⟩
    have hfind' := h.find?_eq_some_iff.2 ⟨hd, rfl⟩
    exact Option.some.inj (Except.ok.inj (hfind.symm.trans hfind'))
  rw [hmap]
  constructor
  · intro x
    simp only [List.mem_map, hf]
    constructor
    · rintro ⟨d, hm, rfl⟩
      split
      · next hu => exact Or.inl (hunique d hm hu ▸ rfl)
      · next hu => exact Or.inr ⟨hm, hu⟩
    · rintro (rfl | ⟨hm, hne⟩)
      · exact ⟨doc, hd, by simp⟩
      · exact ⟨x, hm, if_neg hne⟩
  · refine List.pairwise_map.2 (h.distinct.imp fun {a b} hne => ?_)
    have huri : ∀ d : Document, (if d.uri = doc.uri then f d else d).uri = d.uri := by
      intro d
      split
      · exact hf d
      · rfl
    rw [huri, huri]
    exact hne

theorem Mirrors.put {server server' : Server} {shown : List (Json × Json)} (h : Mirrors server shown)
    {doc : Document} {name : Text} {items : List Json} (hdoc : doc.uri = .str name)
    (hputs : Puts doc server.documents server'.documents)
    (hs : server'.settings = server.settings) (hi : server'.initialized = true)
    (hitems : doc.items server'.settings = .ok items) :
    Mirrors server' (shown ++ [(doc.uri, .arr items)]) := by
  refine ⟨fun d hd => ?_, hputs.distinct, fun _ => hi, fun d hd => ?_, fun uri v hno hv => ?_⟩
  · rcases (hputs.mem_iff d).1 hd with rfl | ⟨hd, -⟩
    · exact ⟨name, hdoc⟩
    · exact h.named d hd
  · rcases (hputs.mem_iff d).1 hd with rfl | ⟨hd, hne⟩
    · exact ⟨items, hitems, by rw [lastShown_concat, if_pos rfl]⟩
    · rw [lastShown_concat, if_neg (Ne.symm hne), hs]
      exact h.current d hd
  · have hne : doc.uri ≠ uri := hno doc ((hputs.mem_iff doc).2 (Or.inl rfl))
    rw [lastShown_concat, if_neg hne] at hv
    refine h.cleared uri v (fun d hd hu => ?_) hv
    exact hno d ((hputs.mem_iff d).2 (Or.inr ⟨hd, fun he => hne (he.symm.trans hu)⟩)) hu

theorem Mirrors.close {server : Server} {shown : List (Json × Json)} (h : Mirrors server shown)
    (uri : Json) : Mirrors (server.close uri) (shown ++ [(uri, .arr [])]) := by
  have hmem : ∀ d, d ∈ (server.close uri).documents ↔ d ∈ server.documents ∧ d.uri ≠ uri := by
    intro d
    simp only [Server.close, List.mem_filter, Bool.not_eq_true']
    refine and_congr_right fun hd => ?_
    rw [← Bool.not_eq_true, h.same_iff hd uri]
  refine ⟨fun d hd => h.named d ((hmem d).1 hd).1, h.distinct.filter _, fun hne => ?_,
    fun d hd => ?_, fun name v hno hv => ?_⟩
  · refine h.started fun he => hne ?_
    rw [Server.close, he, List.filter_nil]
  · obtain ⟨hd, hne⟩ := (hmem d).1 hd
    rw [lastShown_concat, if_neg (Ne.symm hne)]
    exact h.current d hd
  · rw [lastShown_concat] at hv
    split at hv
    · exact (Option.some.inj hv).symm
    · next hne =>
      refine h.cleared name v (fun d hd hu => ?_) hv
      exact hno d ((hmem d).2 ⟨hd, fun he => hne (he.symm.trans hu)⟩) hu

end LittleMan
