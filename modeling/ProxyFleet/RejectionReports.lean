import ProxyFleet.SubscriptionParser

/-!
# Rejected lines

What a report says of a line that the parser refuses: the error, and the text in front of
the first `://`. Two lines are reported alike exactly when these fronts agree, or when
neither line has one. A line without a colon shows nothing of its text.
-/
namespace ProxyFleet

open TextLines

section Cuts

variable {t scheme rest : Text}

/-- What ends a scheme. -/
def schemeMark : Text := "://".toList

theorem isPrefixOf?_eq_none {mark : Text} : mark.isPrefixOf? t = none ↔ ¬ mark <+: t := by
  rw [Option.eq_none_iff_forall_ne_some]
  constructor
  · rintro h ⟨rest, hrest⟩
    exact h rest (List.isPrefixOf?_eq_some_iff_append_eq.mpr hrest)
  · intro h rest hrest
    exact h ⟨rest, List.isPrefixOf?_eq_some_iff_append_eq.mp hrest⟩

theorem splitScheme_eq_none : splitScheme t = none ↔ ¬ schemeMark <:+: t := by
  induction t with
  | nil => simp [splitScheme, schemeMark]
  | cons c t ih =>
    rw [List.infix_cons_iff, not_or, ← ih, ← isPrefixOf?_eq_none, splitScheme, schemeMark]
    cases "://".toList.isPrefixOf? (c :: t) with
    | none => simp
    | some rest => simp

/-- A mark in front of a later one lies in the text before that one. -/
theorem schemeMark_prefix_append (h : schemeMark <+: scheme ++ schemeMark ++ rest) :
    scheme = [] ∨ schemeMark <+: scheme := by
  match scheme with
  | [] => exact .inl rfl
  | [c] => simp [schemeMark] at h
  | [c, d] => simp [schemeMark] at h
  | c :: d :: e :: scheme => exact .inr (by simpa [schemeMark] using h)

/-- The scheme ends at the first mark. -/
theorem splitScheme_eq_some : splitScheme t = some (scheme, rest) ↔
    t = scheme ++ schemeMark ++ rest ∧ ¬ schemeMark <:+: scheme := by
  induction t generalizing scheme with
  | nil => simp [splitScheme, schemeMark]
  | cons c t ih =>
    rw [splitScheme]
    cases hp : "://".toList.isPrefixOf? (c :: t) with
    | some after =>
      have happ := List.isPrefixOf?_eq_some_iff_append_eq.mp hp
      dsimp only
      rw [← happ, Option.some.injEq, Prod.mk.injEq]
      constructor
      · rintro ⟨rfl, rfl⟩
        exact ⟨rfl, by simp [schemeMark]⟩
      · rintro ⟨heq, hno⟩
        have hprefix : schemeMark <+: scheme ++ schemeMark ++ rest := heq ▸ ⟨after, rfl⟩
        rcases schemeMark_prefix_append hprefix with rfl | hin
        · exact ⟨rfl, List.append_cancel_left heq⟩
        · exact absurd hin.isInfix hno
    | none =>
      have hno := isPrefixOf?_eq_none.mp hp
      dsimp only
      cases scheme with
      | nil =>
        constructor
        · intro h
          simp at h
        · rintro ⟨heq, -⟩
          exact absurd ⟨rest, heq.symm⟩ hno
      | cons d scheme =>
        rw [Option.map_eq_some_iff]
        constructor
        · rintro ⟨⟨front, behind⟩, hsplit, heq⟩
          obtain ⟨⟨rfl, rfl⟩, rfl⟩ : (c = d ∧ front = scheme) ∧ behind = rest := by
            simpa using heq
          obtain ⟨rfl, hfront⟩ := ih.mp hsplit
          refine ⟨rfl, fun hin => ?_⟩
          rcases List.infix_cons_iff.mp hin with hin | hin
          · apply hno
            have hlong := hin.trans (List.prefix_append _ (schemeMark ++ behind))
            rwa [List.cons_append, ← List.append_assoc] at hlong
          · exact hfront hin
        · rintro ⟨heq, hfront⟩
          obtain ⟨rfl, rfl⟩ : c = d ∧ t = scheme ++ schemeMark ++ rest := by simpa using heq
          refine ⟨(scheme, rest), ih.mpr ⟨rfl, fun hin => ?_⟩, rfl⟩
          exact hfront (hin.trans (List.suffix_cons c scheme).isInfix)

end Cuts

section Fronts

/-- The lines end their schemes alike, or neither has one. -/
def SameFront (line₁ line₂ : Text) : Prop :=
  (∃ scheme rest₁ rest₂, ¬ schemeMark <:+: scheme ∧ line₁ = scheme ++ schemeMark ++ rest₁ ∧
    line₂ = scheme ++ schemeMark ++ rest₂) ∨
  ¬ schemeMark <:+: line₁ ∧ ¬ schemeMark <:+: line₂

theorem redacted_ne_invalid (scheme : Text) :
    String.ofList scheme ++ "://<redacted>" ≠ "<invalid-line>" := by
  intro h
  have hlast := congrArg (fun s : String => s.toList.reverse[1]?) h
  simp at hlast

/-- What is left of two lines is the same exactly when they end their schemes alike. -/
theorem redact_eq_iff {line₁ line₂ : Text} :
    redact line₁ = redact line₂ ↔ SameFront line₁ line₂ := by
  rw [redact, redact, SameFront, ← splitScheme_eq_none, ← splitScheme_eq_none]
  cases h₁ : splitScheme line₁ with
  | none =>
    cases h₂ : splitScheme line₂ with
    | none => simp
    | some parts =>
      have hno := splitScheme_eq_none.mp h₁
      simp only [reduceCtorEq, and_false, or_false]
      refine iff_of_false (redacted_ne_invalid _).symm ?_
      rintro ⟨scheme, rest₁, rest₂, -, rfl, -⟩
      exact hno ⟨scheme, rest₁, rfl⟩
  | some parts₁ =>
    obtain ⟨scheme₁, rest₁⟩ := parts₁
    obtain ⟨hline₁, hscheme₁⟩ := splitScheme_eq_some.mp h₁
    simp only [reduceCtorEq, false_and, or_false]
    cases h₂ : splitScheme line₂ with
    | none =>
      have hno := splitScheme_eq_none.mp h₂
      refine iff_of_false (redacted_ne_invalid _) ?_
      rintro ⟨scheme, rest₁, rest₂, -, -, rfl⟩
      exact hno ⟨scheme, rest₂, rfl⟩
    | some parts₂ =>
      obtain ⟨scheme₂, rest₂⟩ := parts₂
      obtain ⟨hline₂, -⟩ := splitScheme_eq_some.mp h₂
      constructor
      · intro h
        obtain rfl : scheme₁ = scheme₂ := String.ofList_injective (by simpa using h)
        exact ⟨scheme₁, rest₁, rest₂, hscheme₁, hline₁, hline₂⟩
      · rintro ⟨scheme, other₁, other₂, hscheme, heq₁, heq₂⟩
        have hfirst := splitScheme_eq_some.mpr ⟨heq₁, hscheme⟩
        have hsecond := splitScheme_eq_some.mpr ⟨heq₂, hscheme⟩
        rw [h₁, Option.some.injEq, Prod.mk.injEq] at hfirst
        rw [h₂, Option.some.injEq, Prod.mk.injEq] at hsecond
        rw [hfirst.1, hsecond.1]

end Fronts

section Reports

variable (lib : Libraries) (source : String)

/-- What a report says of a line, if it is rejected. -/
def rejection (line : Text) : Option String :=
  match parseShareUrl lib line source with
  | .ok _ => none
  | .error error => some (error ++ ": " ++ redact line)

/-- A text without a colon is no absolute URL. -/
def Libraries.RelativeUrls : Prop :=
  ∀ raw, ':' ∉ raw → lib.parseUrl raw = .error "relative URL without a base"

variable {lib source}

theorem parseLine_rejected (acc : ParseReport × List String) (line : Text) :
    (parseLine lib source acc line).1.rejected =
      acc.1.rejected ++ (rejection lib source line).toList := by
  rw [parseLine, rejection]
  cases parseShareUrl lib line source with
  | error error => rfl
  | ok proxy =>
    dsimp only
    split <;> simp

/-- A report rejects line by line. -/
theorem rejected_eq (payload : Text) :
    (parseSubscription lib payload source).rejected =
      (subscriptionLines payload).filterMap (rejection lib source) := by
  have hfold : ∀ (ls : List Text) (acc : ParseReport × List String),
      (ls.foldl (parseLine lib source) acc).1.rejected =
        acc.1.rejected ++ ls.filterMap (rejection lib source) := by
    intro ls
    induction ls with
    | nil => simp
    | cons line ls ih =>
      intro acc
      rw [List.foldl_cons, ih, parseLine_rejected, List.append_assoc]
      cases h : rejection lib source line with
      | none => simp [h]
      | some entry => simp [h]
  rw [parseSubscription, hfold, List.nil_append]

theorem rejection_eq_iff {line₁ line₂ : Text} {error : String}
    (h₁ : parseShareUrl lib line₁ source = .error error)
    (h₂ : parseShareUrl lib line₂ source = .error error) :
    rejection lib source line₁ = rejection lib source line₂ ↔ SameFront line₁ line₂ := by
  rw [rejection, rejection, h₁, h₂, ← redact_eq_iff]
  simp

/-- A line without a colon is rejected, whatever it is. -/
theorem rejection_of_no_colon (relative : lib.RelativeUrls) {line : Text} (h : ':' ∉ line) :
    rejection lib source line = some "relative URL without a base: <invalid-line>" := by
  have hraw : ':' ∉ trim isWhitespace line := fun hm => h (mem_of_mem_trim hm)
  have hvmess : ¬ "vmess://".toList <+: trim isWhitespace line :=
    fun hp => hraw (hp.subset (by decide))
  have hss : ¬ "ss://".toList <+: trim isWhitespace line :=
    fun hp => hraw (hp.subset (by decide))
  have hparse : parseShareUrl lib line source = .error "relative URL without a base" := by
    rw [parseShareUrl, parseScheme, if_neg hvmess, if_neg hss, parseUrlProxy, relative _ hraw]
    rfl
  have hmark : ¬ schemeMark <:+: line := fun hin => h (hin.subset (by decide))
  rw [rejection, hparse, redact, splitScheme_eq_none.mpr hmark]
  rfl

/-- Lines that agree through their first colon and are refused with one error are reported
alike exactly when their schemes end alike. -/
theorem rejections_alike_iff (relative : lib.RelativeUrls) (source : String) :
    (∀ payload, (parseSubscription lib payload source).rejected =
      (subscriptionLines payload).filterMap (rejection lib source)) ∧
    (∀ front rest₁ rest₂ error, ':' ∉ front →
      parseShareUrl lib (front ++ ':' :: rest₁) source = .error error →
      parseShareUrl lib (front ++ ':' :: rest₂) source = .error error →
      (rejection lib source (front ++ ':' :: rest₁) =
        rejection lib source (front ++ ':' :: rest₂) ↔
          SameFront (front ++ ':' :: rest₁) (front ++ ':' :: rest₂))) ∧
    (∀ line, ':' ∉ line →
      rejection lib source line = some "relative URL without a base: <invalid-line>") := by
  refine ⟨rejected_eq, ?_, fun line => rejection_of_no_colon relative⟩
  intro front rest₁ rest₂ error _ h₁ h₂
  exact rejection_eq_iff h₁ h₂

end Reports

section Sample

/-- A reader of URLs with an opaque path. -/
def readOpaqueUrl (raw : Text) : Except String Url :=
  match splitOnce ':' raw with
  | none => .error "relative URL without a base"
  | some (scheme, path) => .ok {
      scheme := toAsciiLowercase scheme
      username := []
      password := none
      hostStr := none
      port := none
      path := path
      query := none
      fragment := none }

def opaqueLibraries : Libraries where
  parseUrl := readOpaqueUrl
  parseForm _ := []
  isUuid _ := false
  parseJsonMap _ := none
  jsonToVec _ := []
  sha256 _ := ""
  utf8Error _ := ""

theorem opaqueLibraries_relative : opaqueLibraries.RelativeUrls := by
  intro raw h
  have hsplit := splitOnce_append h []
  rw [List.append_nil] at hsplit
  show readOpaqueUrl raw = _
  rw [readOpaqueUrl, Option.map_eq_none_iff.mp hsplit]

theorem rejections_alike_trojan :
    rejection opaqueLibraries "feed" "trojan:first@host.example:443".toList =
      rejection opaqueLibraries "feed" "trojan:second@host.example:443".toList ∧
    rejection opaqueLibraries "feed" "secret".toList =
      some "relative URL without a base: <invalid-line>" := by
  obtain ⟨-, halike, hcolonless⟩ := rejections_alike_iff opaqueLibraries_relative "feed"
  refine ⟨?_, hcolonless _ (by decide)⟩
  apply (halike "trojan".toList "first@host.example:443".toList "second@host.example:443".toList
    "proxy URL has no port" (by decide) (by rfl) (by rfl)).mpr
  right
  decide

/-- The text between the first colon and a later mark is reported. -/
theorem rejection_reveals_credential :
    parseShareUrl opaqueLibraries "trojan:first@host.example://".toList "feed" =
      .error "proxy URL has no port" ∧
    parseShareUrl opaqueLibraries "trojan:second@host.example://".toList "feed" =
      .error "proxy URL has no port" ∧
    (parseSubscription opaqueLibraries "trojan:first@host.example://".toList "feed").rejected =
      ["proxy URL has no port: trojan:first@host.example://<redacted>"] ∧
    (parseSubscription opaqueLibraries "trojan:second@host.example://".toList "feed").rejected =
      ["proxy URL has no port: trojan:second@host.example://<redacted>"] ∧
    "proxy URL has no port: trojan:first@host.example://<redacted>" ≠
      "proxy URL has no port: trojan:second@host.example://<redacted>" := by
  exact ⟨by rfl, by rfl, by decide +kernel, by decide +kernel, by decide⟩

end Sample

end ProxyFleet
