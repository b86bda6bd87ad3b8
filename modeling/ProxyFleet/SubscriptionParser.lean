import ProxyFleet.ShareUrlParser

/-!
# Subscription payloads

A payload is plain text or the base64 encoding of one. Its lines are parsed one by
one, and a line whose identity was seen before is dropped. A payload that consists
of accepted lines is read back line by line in either form.
-/
namespace ProxyFleet

open TextLines

structure ParseReport where
  accepted : List ParsedProxy := []
  rejected : List String := []

/-- The parts around the first `://`. -/
def splitScheme : Text → Option (Text × Text)
  | [] => none
  | c :: t =>
    match "://".toList.isPrefixOf? (c :: t) with
    | some rest => some ([], rest)
    | none => (splitScheme t).map fun parts => (c :: parts.1, parts.2)

def redact (raw : Text) : String :=
  match splitScheme raw with
  | some (scheme, _) => String.ofList scheme ++ "://<redacted>"
  | none => "<invalid-line>"

def subscriptionLines (payload : Text) : List Text :=
  let trimmed := trim isWhitespace payload
  let decoded :=
    if "://".toList <:+: trimmed then none else (decodeB64 trimmed).bind utf8Decode
  ((lines (decoded.getD trimmed)).map (trim isWhitespace)).filter fun line =>
    !line.isEmpty && line.head? ≠ some '#'

section

variable (lib : Libraries)

/-- One line of a payload. -/
def parseLine (source : String) (acc : ParseReport × List String) (line : Text) :
    ParseReport × List String :=
  match parseShareUrl lib line source with
  | .ok proxy =>
    if proxy.configHash ∈ acc.2 then acc
    else
      ({ acc.1 with accepted := acc.1.accepted ++ [proxy] }, proxy.configHash :: acc.2)
  | .error error =>
    ({ acc.1 with rejected := acc.1.rejected ++ [error ++ ": " ++ redact line] }, acc.2)

def parseSubscription (payload : Text) (source : String) : ParseReport :=
  ((subscriptionLines payload).foldl (parseLine lib source) ({}, [])).1

/-- An absolute URL has a scheme in front of its first colon. -/
def Libraries.AbsoluteUrls : Prop :=
  ∀ raw url, lib.parseUrl raw = .ok url → ∃ scheme rest, raw = scheme ++ ':' :: rest ∧ '#' ∉ scheme

end

section Accepted

variable {lib : Libraries} {raw : Text} {source : String} {proxy : ParsedProxy}

/-- The parser reads nothing of a text but its trimmed form, and keeps that form. -/
theorem parseShareUrl_trim (raw : Text) (source : String) :
    parseShareUrl lib (trim isWhitespace raw) source = parseShareUrl lib raw source := by
  simp only [parseShareUrl, trim_trim]

theorem parseShareUrl_ok (h : parseShareUrl lib raw source = .ok proxy) :
    ∃ share, parseScheme lib (trim isWhitespace raw) = .ok share ∧ validateShare share = .ok () ∧
      proxy.source = source ∧ proxy.rawConfig = trim isWhitespace raw ∧
      proxy.configHash = lib.sha256 (lib.jsonToVec share.normalized) := by
  simp only [parseShareUrl] at h
  cases hs : parseScheme lib (trim isWhitespace raw) with
  | error e => simp [hs, bind, Except.bind] at h
  | ok share =>
    cases hv : validateShare share with
    | error e => simp [hs, hv, bind, Except.bind] at h
    | ok u =>
      simp only [hs, hv, bind, Except.bind, Except.ok.injEq] at h
      subst h
      exact ⟨share, rfl, hv, rfl, rfl, rfl⟩

/-- What the parser kept of a URL parses to the same proxy, from any source. -/
theorem parseShareUrl_rawConfig (h : parseShareUrl lib raw source = .ok proxy) (other : String) :
    parseShareUrl lib proxy.rawConfig other = .ok { proxy with source := other } := by
  obtain ⟨share, hs, hv, -, hraw, -⟩ := parseShareUrl_ok h
  rw [hraw, parseShareUrl_trim]
  simp only [parseShareUrl, hs, hv, bind, Except.bind, Except.ok.injEq] at h ⊢
  rw [← h]

/-- An accepted URL has a scheme in front of its first colon. -/
theorem scheme_of_parseScheme (absolute : lib.AbsoluteUrls) {share : ParsedShare}
    (h : parseScheme lib raw = .ok share) :
    ∃ scheme rest, raw = scheme ++ ':' :: rest ∧ '#' ∉ scheme := by
  unfold parseScheme at h
  split at h
  · next hp =>
    obtain ⟨rest, hrest⟩ := hp
    exact ⟨"vmess".toList, "//".toList ++ rest, hrest.symm, by decide⟩
  split at h
  · next hp =>
    obtain ⟨rest, hrest⟩ := hp
    exact ⟨"ss".toList, "//".toList ++ rest, hrest.symm, by decide⟩
  · cases hu : lib.parseUrl raw with
    | error e => simp [parseUrlProxy, hu, bind, Except.bind] at h
    | ok url => exact absolute raw url hu

/-- The text that the parser keeps of a single line is such a line, and no comment. -/
theorem line_of_parseShareUrl (absolute : lib.AbsoluteUrls)
    (h : parseShareUrl lib raw source = .ok proxy) (single : '\n' ∉ raw) :
    Line proxy.rawConfig ∧ ':' ∈ proxy.rawConfig ∧ proxy.rawConfig.head? ≠ some '#' := by
  obtain ⟨share, hs, -, -, hraw, -⟩ := parseShareUrl_ok h
  obtain ⟨scheme, rest, hsplit, hcomment⟩ := scheme_of_parseScheme absolute hs
  have hcolon : ':' ∈ proxy.rawConfig := by simp [hraw, hsplit]
  refine ⟨⟨?_, ?_, List.ne_nil_of_mem hcolon⟩, hcolon, ?_⟩
  · rw [hraw]
    exact fun hm => single (mem_of_mem_trim hm)
  · rw [hraw]
    exact trimmed_trim raw
  · rw [hraw, hsplit]
    cases scheme with
    | nil => simp
    | cons c scheme =>
      rintro he
      obtain rfl : c = '#' := by simpa using he
      exact hcomment List.mem_cons_self

end Accepted

section Reading

/-- Lines of share URLs: trimmed, without comments, and not base64. -/
structure ShareLines (configs : List Text) : Prop where
  nonempty : configs ≠ []
  line : ∀ config ∈ configs, Line config
  colon : ∀ config ∈ configs, ':' ∈ config
  noComment : ∀ config ∈ configs, config.head? ≠ some '#'

variable {configs : List Text}

theorem mem_rdropWhile {α : Type*} {p : α → Bool} {l : List α} {a : α} (ha : a ∈ l)
    (hp : p a = false) : a ∈ l.rdropWhile p := by
  rw [List.rdropWhile, List.mem_reverse]
  have hm : a ∈ l.reverse.takeWhile p ++ l.reverse.dropWhile p := by
    rw [List.takeWhile_append_dropWhile]
    exact List.mem_reverse.mpr ha
  rcases List.mem_append.mp hm with hm | hm
  · have hbad := List.mem_takeWhile_imp hm
    rw [hp] at hbad
    cases hbad
  · exact hm

/-- A text with a colon is not base64 in either alphabet. -/
theorem decodeB64_eq_none {text : Text} (h : ':' ∈ text) : decodeB64 text = none := by
  have hs := Base64.decode_eq_none Base64.standard true h (by decide) (by decide)
  have hu := Base64.decode_eq_none Base64.urlSafe false
    (mem_rdropWhile (p := fun c => decide (c = '=')) h (by decide)) (by decide) (by decide)
  rw [decodeB64, hs, hu]
  rfl

theorem mem_joinLines {l : List Char} {ls : List (List Char)} (hl : l ∈ ls) {c : Char}
    (hc : c ∈ l) : c ∈ joinLines ls := by
  induction ls with
  | nil => cases hl
  | cons k ls ih =>
    cases ls with
    | nil =>
      obtain rfl := List.mem_singleton.mp hl
      rwa [joinLines_singleton]
    | cons m ls =>
      rw [joinLines_cons_cons, List.mem_append, List.mem_cons]
      rcases List.mem_cons.mp hl with rfl | hl
      · exact .inl hc
      · exact .inr (.inr (ih hl))

/-- The lines that a reader keeps of a text of share URLs. -/
theorem keep_lines (h : ShareLines configs) {final : Text} (hf : final = [] ∨ final = ['\n']) :
    ((lines (joinLines configs ++ final)).map (trim isWhitespace)).filter
      (fun line => !line.isEmpty && line.head? ≠ some '#') = configs := by
  rw [lines_joinLines h.line h.nonempty hf]
  have hmap : configs.map (trim isWhitespace) = configs :=
    (List.map_congr_left fun config hc => (h.line config hc).trimmed.trim_eq).trans
      (List.map_id' configs)
  rw [hmap, List.filter_eq_self]
  intro config hc
  simp [(h.line config hc).nonempty, h.noComment config hc]

/-- The final line break of a text is trimmed away. -/
theorem trim_newline (text : Text) :
    trim isWhitespace (text ++ ['\n']) = trim isWhitespace text := by
  apply trim_append_right
  intro c hc
  rw [List.mem_singleton.mp hc]
  rfl

theorem trim_final (h : ShareLines configs) :
    trim isWhitespace (joinLines configs ++ ['\n']) = joinLines configs := by
  rw [trim_newline, (trimmed_joinLines h.line).trim_eq]

/-- A plain text is read line by line. -/
theorem subscriptionLines_plain (h : ShareLines configs) :
    subscriptionLines (joinLines configs ++ ['\n']) = configs := by
  have hcolon : ':' ∈ joinLines configs := by
    obtain ⟨config, hc⟩ := List.exists_mem_of_ne_nil _ h.nonempty
    exact mem_joinLines hc (h.colon config hc)
  have hplain : (if "://".toList <:+: joinLines configs then none
      else (decodeB64 (joinLines configs)).bind utf8Decode) = none := by
    rw [decodeB64_eq_none hcolon]
    split <;> rfl
  have hkeep := keep_lines h (.inl rfl)
  rw [List.append_nil] at hkeep
  rw [subscriptionLines, trim_final h, hplain]
  exact hkeep

theorem not_whitespace_of_mem_encode {padded : Bool} {bytes : List UInt8} {c : Char}
    (h : c ∈ Base64.encode Base64.standard padded bytes) : isWhitespace c = false ∧ c ≠ ':' := by
  have hall : Base64.standard.symbols.all
      (fun c => decide (isWhitespace c = false ∧ c ≠ ':')) = true := by decide +kernel
  rcases Base64.mem_encode _ h with h | rfl
  · exact of_decide_eq_true (List.all_eq_true.mp hall c h)
  · decide

/-- A text in standard base64 is decoded first. -/
theorem subscriptionLines_base64 (h : ShareLines configs) :
    subscriptionLines (Base64.encode Base64.standard true
      (utf8Encode (joinLines configs ++ ['\n'])) ++ ['\n']) = configs := by
  generalize hbytes : utf8Encode (joinLines configs ++ ['\n']) = bytes
  have htrimmed : Trimmed isWhitespace (Base64.encode Base64.standard true bytes) :=
    ⟨fun c hc => (not_whitespace_of_mem_encode (List.mem_of_head? hc)).1,
      fun c hc => (not_whitespace_of_mem_encode (List.mem_of_getLast? hc)).1⟩
  have hscheme : ¬ "://".toList <:+: Base64.encode Base64.standard true bytes := by
    intro hin
    exact (not_whitespace_of_mem_encode (hin.subset (by decide : ':' ∈ "://".toList))).2 rfl
  have hdecoded : (decodeB64 (Base64.encode Base64.standard true bytes)).bind utf8Decode =
      some (joinLines configs ++ ['\n']) := by
    rw [decodeB64, Base64.decode_encode, ← hbytes]
    exact utf8Decode_encode _
  rw [subscriptionLines, trim_newline, htrimmed.trim_eq]
  simp only [if_neg hscheme, hdecoded, Option.getD_some]
  exact keep_lines h (.inr rfl)

end Reading

section Folding

variable {lib : Libraries} {source : String}

/-- Lines that parse to proxies of new and distinct identities are all accepted in order. -/
theorem foldl_parseLine {configs : List Text} {proxies : List ParsedProxy}
    (parsed : configs.map (parseShareUrl lib · source) = proxies.map .ok) (report : ParseReport)
    (seen : List String) (distinct : (proxies.map (·.configHash)).Nodup)
    (fresh : ∀ proxy ∈ proxies, proxy.configHash ∉ seen) :
    (configs.foldl (parseLine lib source) (report, seen)).1 =
      { report with accepted := report.accepted ++ proxies } := by
  induction configs generalizing proxies report seen with
  | nil =>
    obtain rfl : proxies = [] := by simpa using parsed.symm
    simp
  | cons config configs ih =>
    cases proxies with
    | nil => simp at parsed
    | cons proxy proxies =>
      rw [List.map_cons, List.map_cons, List.cons.injEq] at parsed
      rw [List.map_cons, List.nodup_cons] at distinct
      have hstep : parseLine lib source (report, seen) config =
          ({ report with accepted := report.accepted ++ [proxy] }, proxy.configHash :: seen) := by
        simp only [parseLine, parsed.1, if_neg (fresh proxy List.mem_cons_self)]
      rw [List.foldl_cons, hstep, ih parsed.2 _ _ distinct.2 fun other ho => ?_]
      · simp
      · rw [List.mem_cons, not_or]
        refine ⟨fun he => distinct.1 (he ▸ List.mem_map_of_mem ho), ?_⟩
        exact fresh other (List.mem_cons_of_mem _ ho)

/-- What a report accepts was parsed from one of the lines, under the given source. -/
theorem mem_accepted {payload : Text} {proxy : ParsedProxy}
    (h : proxy ∈ (parseSubscription lib payload source).accepted) :
    ∃ line ∈ subscriptionLines payload, parseShareUrl lib line source = .ok proxy := by
  have hfold : ∀ (ls : List Text) (acc : ParseReport × List String),
      (∀ p ∈ acc.1.accepted, ∃ line ∈ subscriptionLines payload,
        parseShareUrl lib line source = .ok p) →
      (∀ line ∈ ls, line ∈ subscriptionLines payload) →
      ∀ p ∈ (ls.foldl (parseLine lib source) acc).1.accepted,
        ∃ line ∈ subscriptionLines payload, parseShareUrl lib line source = .ok p := by
    intro ls
    induction ls with
    | nil => exact fun acc hacc _ => hacc
    | cons line ls ih =>
      intro acc hacc hls
      refine ih (parseLine lib source acc line) ?_ fun l hl => hls l (List.mem_cons_of_mem _ hl)
      intro p hp
      unfold parseLine at hp
      split at hp
      · next proxy hproxy =>
        split at hp
        · exact hacc p hp
        · rcases List.mem_append.mp hp with hp | hp
          · exact hacc p hp
          · obtain rfl := List.mem_singleton.mp hp
            exact ⟨line, hls line List.mem_cons_self, hproxy⟩
      · exact hacc p hp
  exact hfold _ _ (by simp) (fun _ hl => hl) proxy h

/-- Every identity of a line that parses is accepted, from this line or an earlier one. -/
theorem accepted_of_mem {payload line : Text} {proxy : ParsedProxy}
    (hline : line ∈ subscriptionLines payload)
    (parsed : parseShareUrl lib line source = .ok proxy) :
    ∃ p ∈ (parseSubscription lib payload source).accepted, p.configHash = proxy.configHash := by
  have hfold : ∀ (ls : List Text) (acc : ParseReport × List String),
      (∀ hash ∈ acc.2, ∃ p ∈ acc.1.accepted, p.configHash = hash) →
      (line ∈ ls ∨ proxy.configHash ∈ acc.2) →
      ∃ p ∈ (ls.foldl (parseLine lib source) acc).1.accepted, p.configHash = proxy.configHash := by
    intro ls
    induction ls with
    | nil =>
      intro acc hacc hmem
      exact hacc _ (hmem.resolve_left List.not_mem_nil)
    | cons first ls ih =>
      intro acc hacc hmem
      rw [List.foldl_cons]
      apply ih
      · unfold parseLine
        split
        · split
          · exact hacc
          · intro hash hhash
            rcases List.mem_cons.mp hhash with rfl | hhash
            · exact ⟨_, List.mem_append_right _ (List.mem_singleton.mpr rfl), rfl⟩
            · obtain ⟨p, hp, rfl⟩ := hacc hash hhash
              exact ⟨p, List.mem_append_left _ hp, rfl⟩
        · exact hacc
      · rcases hmem with hmem | hseen
        · rcases List.mem_cons.mp hmem with rfl | hmem
          · right
            unfold parseLine
            rw [parsed]
            dsimp only
            split
            · assumption
            · exact List.mem_cons_self
          · exact .inl hmem
        · right
          unfold parseLine
          split
          · split
            · exact hseen
            · exact List.mem_cons_of_mem _ hseen
          · exact hseen
  exact hfold _ _ (by simp) (.inl hline)

end Folding

end ProxyFleet
