import Mathlib.Data.List.DropRight
import DpiEngine.Extractors

/-!
# Hosts of HTTP requests

`HTTPHostExtractor::extract` on requests made of lines.  It returns the text behind the first
`host:` in any line, at whatever place in the line, so it returns the host of the request exactly
when no earlier line misleads it and no blank trails the value.
-/

namespace DPI

open Bytes

namespace HTTPHostExtractor

/-! ## The scan as a function of the bytes that follow -/

/-- The bytes start with `host:` in any letter case. -/
def startsWithHost (s : Str) : Bool := toLower (s.take 5) == text "host:"

/-- What follows `host:` and blanks on the same line. -/
def hostText (s : Str) : Str := ((s.drop 5).dropWhile isBlank).takeWhile fun b => !isLineEnd b

def upToColon (s : Str) : Str := s.takeWhile fun b => b != 0x3a

/-- The scan from one byte on. -/
def firstHost : Str → Option Str
  | [] => none
  | b :: s =>
    if s.length < 6 then none
    else if startsWithHost (b :: s) ∧ hostText (b :: s) ≠ [] then
      some (upToColon (hostText (b :: s)))
    else firstHost s

variable {payload rest : Str} {i : ℕ}

theorem toLowerByte_eq_iff (b : UInt8) :
    (toLowerByte b = 0x68 ↔ b = 0x48 ∨ b = 0x68) ∧ (toLowerByte b = 0x6f ↔ b = 0x6f ∨ b = 0x4f) ∧
      (toLowerByte b = 0x73 ↔ b = 0x73 ∨ b = 0x53) ∧
      (toLowerByte b = 0x74 ↔ b = 0x74 ∨ b = 0x54) ∧ (toLowerByte b = 0x3a ↔ b = 0x3a) := by
  have hall : ∀ n : Fin 256, let b := UInt8.ofNat n
      (toLowerByte b = 0x68 ↔ b = 0x48 ∨ b = 0x68) ∧
        (toLowerByte b = 0x6f ↔ b = 0x6f ∨ b = 0x4f) ∧
        (toLowerByte b = 0x73 ↔ b = 0x73 ∨ b = 0x53) ∧
        (toLowerByte b = 0x74 ↔ b = 0x74 ∨ b = 0x54) ∧ (toLowerByte b = 0x3a ↔ b = 0x3a) := by
    decide +kernel
  have h := hall ⟨b.toNat, b.toNat_lt⟩
  simpa using h

theorem text_host : text "host:" = [0x68, 0x6f, 0x73, 0x74, 0x3a] := by decide

/-- The comparisons of the scan, one byte after the other. -/
theorem startsWithHost_cons (b₀ b₁ b₂ b₃ b₄ : UInt8) (s : Str) :
    startsWithHost (b₀ :: b₁ :: b₂ :: b₃ :: b₄ :: s) =
      ((b₀ == 0x48 || b₀ == 0x68) && ((b₁ == 0x6f || b₁ == 0x4f) &&
        ((b₂ == 0x73 || b₂ == 0x53) && ((b₃ == 0x74 || b₃ == 0x54) && b₄ == 0x3a)))) := by
  rw [Bool.eq_iff_iff]
  simp only [startsWithHost, text_host, toLower, List.take_succ_cons, List.take_zero,
    List.map_cons, List.map_nil, beq_iff_eq, List.cons.injEq, Bool.and_eq_true, Bool.or_eq_true,
    and_true, toLowerByte_eq_iff]

theorem ite_not_false {a c : Bool} {x : Checked Bool} (h : x = .ok c) :
    (if !a then pure false else x) = .ok (a && c) := by
  cases a with
  | false => rfl
  | true => simpa using h

theorem isHostAt_of_tailAt (h : TailAt payload i rest) (hlen : 5 ≤ rest.length) :
    isHostAt payload i = .ok (startsWithHost rest) := by
  match rest, hlen with
  | b₀ :: b₁ :: b₂ :: b₃ :: b₄ :: s, _ =>
    rw [startsWithHost_cons, isHostAt, h.readByte, ok_bind, h.tail.readByte, ok_bind,
      h.tail.tail.readByte, ok_bind, h.tail.tail.tail.readByte, ok_bind,
      h.tail.tail.tail.tail.readByte, ok_bind]
    exact ite_not_false (ite_not_false (ite_not_false (ite_not_false rfl)))

/-- Skipping reads on as long as the condition holds. -/
theorem skipWhile_of_tailAt (p : UInt8 → Bool) (h : TailAt payload i rest) :
    skipWhile p payload i = .ok (i + (rest.takeWhile p).length) := by
  induction rest generalizing i with
  | nil =>
    have hlen := h.1
    unfold skipWhile
    exact if_neg (by simp at hlen; omega)
  | cons b s ih =>
    have hlen := h.1
    unfold skipWhile
    rw [if_pos (by simp at hlen; omega), h.readByte, ok_bind]
    cases hb : p b with
    | false => simp [hb]; rfl
    | true =>
      rw [if_pos rfl, ih h.tail, List.takeWhile_cons_of_pos hb, List.length_cons]
      congr 1
      omega

theorem findHost_of_tailAt (h : TailAt payload i rest) :
    findHost payload i = .ok (firstHost rest) := by
  induction rest generalizing i with
  | nil =>
    have hlen := h.1
    unfold findHost
    exact if_neg (by simp at hlen; omega)
  | cons b s ih =>
    have hlen := h.1
    rw [List.length_cons] at hlen
    unfold findHost firstHost
    by_cases hs : s.length < 6
    · rw [if_neg (by omega), if_pos hs]
      rfl
    rw [if_pos (by omega), if_neg hs, isHostAt_of_tailAt h (by rw [List.length_cons]; omega),
      ok_bind]
    by_cases hhost : startsWithHost (b :: s) = true
    · have h5 : TailAt payload (i + 5) ((b :: s).drop 5) := by
        rw [← List.take_append_drop 5 (b :: s)] at h
        exact h.append (by simp; omega)
      have hstart : TailAt payload (i + 5 + (((b :: s).drop 5).takeWhile isBlank).length)
          (((b :: s).drop 5).dropWhile isBlank) := by
        rw [← List.takeWhile_append_dropWhile (p := isBlank) (l := (b :: s).drop 5)] at h5
        exact h5.append rfl
      have htext := hstart
      rw [← List.takeWhile_append_dropWhile (p := fun b => !isLineEnd b)
        (l := ((b :: s).drop 5).dropWhile isBlank)] at htext
      rw [if_pos hhost, skipWhile_of_tailAt isBlank h5, ok_bind, skipWhile_of_tailAt _ hstart,
        ok_bind]
      by_cases hempty : hostText (b :: s) = []
      · have hzero : (((b :: s).drop 5).dropWhile isBlank).takeWhile (fun b => !isLineEnd b) = [] :=
          hempty
        rw [hzero, if_neg (by simp), if_neg fun hand => hand.2 hempty]
        exact ih h.tail
      · have hpos : 0 < (hostText (b :: s)).length := List.length_pos_iff.2 hempty
        rw [hostText] at hpos
        rw [if_pos (by omega), htext.readSlice (by omega), ok_bind, if_pos ⟨hhost, hempty⟩]
        rfl
    · rw [if_neg hhost, if_neg fun hand => hhost hand.1]
      exact ih h.tail

theorem extract_eq_some_iff {payload name : Str} : extract payload = .ok (some name) ↔
    isHTTPRequest payload = .ok true ∧ firstHost payload = some name := by
  simp only [extract, bind_eq_ok_iff, ite_none_eq_ok_some]
  rw [findHost_of_tailAt (.start payload)]
  simp

/-! ## Lines -/

/-- The scan of one line. -/
def lineHost : Str → Option Str
  | [] => none
  | b :: s =>
    if startsWithHost (b :: s) ∧ hostText (b :: s) ≠ [] then
      some (upToColon (hostText (b :: s)))
    else lineHost s

/-- No carriage return and no line feed. -/
def Clean (line : Str) : Prop := ∀ b ∈ line, isLineEnd b = false

instance (line : Str) : Decidable (Clean line) :=
  inferInstanceAs (Decidable (∀ b ∈ line, isLineEnd b = false))

theorem length_of_startsWithHost {s : Str} (h : startsWithHost s = true) : 5 ≤ s.length := by
  have hlen := congrArg List.length (beq_iff_eq.1 h)
  rw [text_host, toLower, List.length_map, List.length_take] at hlen
  simp at hlen
  omega

/-- The letters are sought within one line. -/
theorem startsWithHost_append (line tail : Str) :
    startsWithHost (line ++ 0x0d :: tail) = startsWithHost line := by
  by_cases hlen : 5 ≤ line.length
  · rw [startsWithHost, startsWithHost, List.take_append_of_le_length hlen]
  · have hline : startsWithHost line = false :=
      Bool.eq_false_iff.2 fun h => hlen (length_of_startsWithHost h)
    rw [hline, Bool.eq_false_iff]
    intro h
    have hmem : (0x0d : UInt8) ∈ (line ++ 0x0d :: tail).take 5 := by
      rw [List.take_append, List.take_of_length_le (by omega)]
      apply List.mem_append_right _
      obtain ⟨k, hk⟩ : ∃ k, 5 - line.length = k + 1 := ⟨4 - line.length, by omega⟩
      rw [hk, List.take_succ_cons]
      exact List.mem_cons_self
    have hlower := List.mem_map_of_mem (f := toLowerByte) hmem
    rw [← toLower, beq_iff_eq.1 h, text_host] at hlower
    revert hlower
    decide

theorem hostText_append {line : Str} (hclean : Clean line) (hlen : 5 ≤ line.length) (tail : Str) :
    hostText (line ++ 0x0d :: tail) = hostText line := by
  have hdrop : ∀ b ∈ (line.drop 5).dropWhile isBlank, (!isLineEnd b) = true := by
    intro b hb
    have hmem := List.mem_of_mem_drop ((List.dropWhile_sublist isBlank).subset hb)
    rw [hclean b hmem]
    rfl
  have hend : ((0x0d : UInt8) :: tail).takeWhile (fun b => !isLineEnd b) = [] := by
    rw [List.takeWhile_cons_of_neg (by decide)]
  rw [hostText, hostText, List.drop_append_of_le_length hlen, List.dropWhile_append]
  split_ifs with hempty
  · rw [List.dropWhile_cons_of_neg (by decide), hend, List.isEmpty_iff.1 hempty]
    rfl
  · rw [List.takeWhile_append_of_pos hdrop, hend, List.append_nil,
      List.takeWhile_eq_self_iff.2 hdrop]

theorem not_startsWithHost_lineEnd {b : UInt8} (hb : isLineEnd b = true) (s : Str) :
    startsWithHost (b :: s) = false := by
  have hhead : toLowerByte b ≠ 0x68 := by
    rcases Bool.or_eq_true_iff.1 hb with h | h
    · rw [beq_iff_eq.1 h]
      decide
    · rw [beq_iff_eq.1 h]
      decide
  rw [Bool.eq_false_iff, startsWithHost, text_host]
  intro h
  exact hhead (List.cons.inj (beq_iff_eq.1 h)).1

/-- A line that is followed by enough bytes is scanned first. -/
theorem firstHost_line {line more : Str} (hclean : Clean line) (hmore : 6 ≤ more.length) :
    firstHost (line ++ 0x0d :: 0x0a :: more) = (lineHost line).or (firstHost more) := by
  induction line with
  | nil =>
    rw [List.nil_append, firstHost, if_neg (by simp; omega),
      not_startsWithHost_lineEnd (by decide), if_neg (by simp), firstHost, if_neg (by omega),
      not_startsWithHost_lineEnd (by decide), if_neg (by simp)]
    rfl
  | cons b line ih =>
    have hline : Clean line := fun b' hb => hclean b' (List.mem_cons_of_mem _ hb)
    rw [List.cons_append, firstHost, if_neg (by simp; omega), ← List.cons_append,
      startsWithHost_append, lineHost]
    by_cases hhost : startsWithHost (b :: line) = true
    · rw [hostText_append hclean (length_of_startsWithHost hhost), ih hline]
      split_ifs <;> rfl
    · rw [if_neg fun hand => hhost hand.1, if_neg fun hand => hhost hand.1, ih hline]

/-- Lines are scanned in order. -/
theorem firstHost_lines {lines : List Str} {more : Str} (hclean : ∀ line ∈ lines, Clean line)
    (hmore : 6 ≤ more.length) :
    firstHost (lines.flatMap (fun line => line ++ [0x0d, 0x0a]) ++ more) =
      (lines.findSome? lineHost).or (firstHost more) := by
  induction lines with
  | nil => rfl
  | cons line lines ih =>
    rw [List.flatMap_cons, List.append_assoc, List.append_assoc]
    have hlen : 6 ≤ (lines.flatMap (fun line => line ++ [0x0d, 0x0a]) ++ more).length := by
      rw [List.length_append]
      omega
    apply (firstHost_line (hclean line List.mem_cons_self) hlen).trans
    rw [ih fun line' hmem => hclean line' (List.mem_cons_of_mem _ hmem), List.findSome?_cons]
    cases lineHost line <;> rfl

/-! ## Requests -/

/-- A value without leading and trailing blanks. -/
def trim (value : Str) : Str := (value.dropWhile isBlank).rdropWhile isBlank

def crlf : Str := [0x0d, 0x0a]

/-- An HTTP request whose only header of the name `host` is `hostName`, in whatever letter case,
with the headers before and after it.  Its value names a host before its first colon. -/
structure Request where
  requestLine : Str
  before : List Str
  hostName : Str
  value : Str
  after : List Str
  body : Str
  method : requestLine.take 4 ∈ methods
  isHost : toLower hostName = text "host"
  others : ∀ line ∈ before ++ after, line ≠ [] ∧ startsWithHost line = false
  clean : ∀ line ∈ requestLine :: before ++ (hostName ++ 0x3a :: value) :: after, Clean line
  named : upToColon (trim value) ≠ []

namespace Request

variable (r : Request)

def hostLine : Str := r.hostName ++ 0x3a :: r.value

def bytes : Str :=
  ((r.requestLine :: r.before ++ r.hostLine :: r.after).flatMap fun line => line ++ crlf) ++
    crlf ++ r.body

/-- The host that the request names. -/
def host : Str := upToColon (trim r.value)

/-- The text that the scan takes from a line before the host header. -/
def misleading : Option Str := (r.requestLine :: r.before).findSome? lineHost

end Request

theorem length_hostName (r : Request) : r.hostName.length = 4 := by
  have hlen := congrArg List.length r.isHost
  rw [toLower, List.length_map] at hlen
  exact hlen

theorem startsWithHost_hostLine (r : Request) (tail : Str) :
    startsWithHost (r.hostLine ++ tail) = true := by
  have htake : (r.hostLine ++ tail).take 5 = r.hostName ++ [0x3a] := by
    rw [Request.hostLine, List.append_assoc, List.take_append, length_hostName,
      List.take_of_length_le (by rw [length_hostName]; omega)]
    rfl
  have hcolon : text "host" ++ [toLowerByte 0x3a] = text "host:" := by decide
  rw [startsWithHost, htake, beq_iff_eq, toLower, List.map_append, ← toLower, r.isHost]
  exact hcolon

theorem clean_hostLine (r : Request) : Clean r.hostLine :=
  r.clean _ (List.mem_append_right _ List.mem_cons_self)

theorem hostText_hostLine (r : Request) (tail : Str) :
    hostText (r.hostLine ++ 0x0d :: tail) = r.value.dropWhile isBlank := by
  have hdrop : r.hostLine.drop 5 = r.value := by
    rw [Request.hostLine, List.drop_append, length_hostName,
      List.drop_of_length_le (by rw [length_hostName]; omega)]
    rfl
  have hlen : 5 ≤ r.hostLine.length := by
    rw [Request.hostLine, List.length_append, length_hostName, List.length_cons]
    omega
  rw [hostText_append (clean_hostLine r) hlen, hostText, hdrop, List.takeWhile_eq_self_iff]
  intro b hb
  have hmem := (List.dropWhile_sublist isBlank).subset hb
  rw [clean_hostLine r b (List.mem_append_right _ (List.mem_cons_of_mem _ hmem))]
  rfl

theorem dropWhile_value_ne_nil (r : Request) : r.value.dropWhile isBlank ≠ [] := by
  intro h
  apply r.named
  rw [trim, h]
  rfl

theorem firstHost_of_startsWithHost {s : Str} (hlen : 7 ≤ s.length)
    (hhost : startsWithHost s = true) (htext : hostText s ≠ []) :
    firstHost s = some (upToColon (hostText s)) := by
  cases s with
  | nil => simp at hlen
  | cons b s =>
    rw [List.length_cons] at hlen
    rw [firstHost, if_neg (by omega), if_pos ⟨hhost, htext⟩]

theorem isHTTPRequest_request (r : Request) : isHTTPRequest r.bytes = .ok true := by
  have hlen : 4 ≤ r.requestLine.length := by
    have hall : ∀ m ∈ methods, m.length = 4 := by decide
    have h := hall _ r.method
    rw [List.length_take] at h
    omega
  obtain ⟨tail, htail⟩ : ∃ tail, r.bytes = r.requestLine ++ tail := by
    rw [Request.bytes, List.cons_append, List.flatMap_cons, List.append_assoc, List.append_assoc,
      List.append_assoc]
    exact ⟨_, rfl⟩
  have hbytes : 4 ≤ r.bytes.length := by
    rw [htail, List.length_append]
    omega
  have htake : (r.bytes.drop 0).take 4 = r.requestLine.take 4 := by
    rw [List.drop_zero, htail, List.take_append_of_le_length hlen]
  rw [isHTTPRequest, if_neg (by omega), readSlice_of_le (by omega), ok_bind, htake]
  refine congrArg Except.ok (List.any_eq_true.2 ⟨_, r.method, ?_⟩)
  exact beq_iff_eq.2 rfl

/-- The first misleading text is returned, and without any the value up to its first colon. -/
theorem extract_request (r : Request) :
    extract r.bytes = .ok (r.misleading.or (some (upToColon (r.value.dropWhile isBlank)))) := by
  let tail := 0x0a :: (r.after.flatMap fun line => line ++ [0x0d, 0x0a]) ++ crlf ++ r.body
  have hsplit : r.bytes = ((r.requestLine :: r.before).flatMap fun line => line ++ [0x0d, 0x0a]) ++
      (r.hostLine ++ 0x0d :: tail) := by
    simp [Request.bytes, crlf, tail]
  have htext := hostText_hostLine r tail
  have hne := dropWhile_value_ne_nil r
  have hlen : 7 ≤ (r.hostLine ++ 0x0d :: tail).length := by
    simp [Request.hostLine, length_hostName, tail, crlf]
    omega
  have hfirst := firstHost_of_startsWithHost hlen (startsWithHost_hostLine r _) (htext ▸ hne)
  have hclean : ∀ line ∈ r.requestLine :: r.before, Clean line :=
    fun line hline => r.clean line (List.mem_append_left _ hline)
  rw [extract, isHTTPRequest_request, ok_bind, if_neg (by simp),
    findHost_of_tailAt (TailAt.start _), hsplit, firstHost_lines hclean (by omega), hfirst, htext]
  rfl

theorem upToColon_append_of_mem {s : Str} (h : 0x3a ∈ s) (tail : Str) :
    upToColon (s ++ tail) = upToColon s := by
  rw [upToColon, upToColon, List.takeWhile_append]
  split_ifs with hlen
  · have hself : s.takeWhile (fun b => b != 0x3a) = s :=
      (List.takeWhile_prefix _).eq_of_length hlen
    have hcolon := List.takeWhile_eq_self_iff.1 hself _ h
    simp at hcolon
  · rfl

theorem upToColon_of_notMem {s : Str} (h : 0x3a ∉ s) : upToColon s = s := by
  refine List.takeWhile_eq_self_iff.2 fun b hb => bne_iff_ne.2 ?_
  rintro rfl
  exact h hb

/-- The blanks behind a value belong to what is taken unless a colon comes first. -/
theorem upToColon_trim_iff {value : Str} (h : value.dropWhile isBlank ≠ []) :
    upToColon (value.dropWhile isBlank) = upToColon (trim value) ↔
      0x3a ∈ value ∨ ∀ b, value.getLast? = some b → isBlank b = false := by
  have hsplit := List.takeWhile_append_dropWhile (p := isBlank) (l := value)
  have htrim : trim value ++ (value.dropWhile isBlank).rtakeWhile isBlank =
      value.dropWhile isBlank := List.rdropWhile_append_rtakeWhile
  have hblank : ¬ isBlank 0x3a = true := by decide
  -- the blanks on either side hold no colon
  have hcolon : 0x3a ∈ value ↔ 0x3a ∈ trim value := by
    conv_lhs => rw [← hsplit, ← htrim]
    rw [List.mem_append, List.mem_append]
    constructor
    · rintro (hlead | hmem | htrail)
      · exact absurd (List.mem_takeWhile_imp hlead) hblank
      · exact hmem
      · exact absurd (List.mem_rtakeWhile_imp htrail) hblank
    · exact fun hmem => Or.inr (Or.inl hmem)
  have hlast : (∀ b, value.getLast? = some b → isBlank b = false) ↔
      (value.dropWhile isBlank).rtakeWhile isBlank = [] := by
    have hget : value.getLast? = some ((value.dropWhile isBlank).getLast h) := by
      conv_lhs => rw [← hsplit]
      rw [List.getLast?_append, List.getLast?_eq_some_getLast h]
      rfl
    rw [List.rtakeWhile_eq_nil_iff, hget]
    simp [h]
  rw [hcolon, hlast]
  by_cases hmem : 0x3a ∈ trim value
  · rw [← htrim, upToColon_append_of_mem hmem]
    simp [hmem]
  · have hnot : 0x3a ∉ value.dropWhile isBlank := fun hin =>
      hmem (hcolon.1 (hsplit ▸ List.mem_append_right _ hin))
    rw [upToColon_of_notMem hmem, upToColon_of_notMem hnot, or_iff_right hmem]
    constructor
    · intro heq
      rw [← htrim] at heq
      exact List.append_right_eq_self.1 heq
    · intro hnil
      rw [hnil, List.append_nil] at htrim
      exact htrim.symm

/-- The host of the request is returned exactly when the first misleading text, if there is any,
names the same host, and otherwise no blank trails the value or a colon comes before it. -/
theorem extract_host_iff (r : Request) :
    extract r.bytes = .ok (some r.host) ↔
      match r.misleading with
      | some other => other = r.host
      | none => 0x3a ∈ r.value ∨ ∀ b, r.value.getLast? = some b → isBlank b = false := by
  rw [extract_request]
  cases r.misleading with
  | none =>
    rw [← upToColon_trim_iff (dropWhile_value_ne_nil r)]
    exact ⟨fun h => Option.some.inj (Except.ok.inj h), fun h => congrArg (Except.ok ∘ some) h⟩
  | some other =>
    exact ⟨fun h => Option.some.inj (Except.ok.inj h), fun h => congrArg (Except.ok ∘ some) h⟩

/-- A request for `ok.com` that went through a proxy. -/
def proxied : Request where
  requestLine := text "GET / HTTP/1.1"
  before := [text "X-Forwarded-Host: evil.com"]
  hostName := text "Host"
  value := text " ok.com"
  after := [text "Accept: */*"]
  body := []
  method := by decide
  isHost := by decide
  others := by decide
  clean := by decide +kernel
  named := by decide

/-- A request for `ok.com` with a blank at the end of the line. -/
def padded : Request where
  requestLine := text "GET / HTTP/1.1"
  before := []
  hostName := text "Host"
  value := text " ok.com "
  after := []
  body := []
  method := by decide
  isHost := by decide
  others := by decide
  clean := by decide +kernel
  named := by decide

theorem host_misread :
    (proxied.host = text "ok.com" ∧ extract proxied.bytes = .ok (some (text "evil.com"))) ∧
      padded.host = text "ok.com" ∧ extract padded.bytes = .ok (some (text "ok.com ")) ∧
      extract proxied.bytes ≠ .ok (some proxied.host) ∧
      extract padded.bytes ≠ .ok (some padded.host) := by
  decide +kernel

end HTTPHostExtractor

end DPI
