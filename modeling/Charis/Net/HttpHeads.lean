import Charis.Net.HttpSegments

/-!
# Response heads

A response head is a status line, header fields and an empty line.  `parse_headers` looks
for the empty line behind the end of the status line, so that it finds the end of a head
that has a field, and reports what the head says; a head without fields it does not
recognise.
-/

namespace Charis.Net

section Search

variable {first : UInt8} {needle : List UInt8}

theorem kstrstr_cons {byte : UInt8} (other : byte ≠ first) (text : List UInt8) :
    kstrstr (first :: needle) (byte :: text) =
      (kstrstr (first :: needle) text).map (· + 1) := by
  have missed : ¬ (first :: needle).isPrefixOf (byte :: text) = true := by
    simp only [List.isPrefixOf_cons_cons, Bool.and_eq_true, beq_iff_eq, not_and]
    intro same
    exact absurd same.symm other
  rw [kstrstr, if_neg missed]

/-- A part of the text without the first byte of what is looked for is passed over. -/
theorem kstrstr_skip {front : List UInt8} (absent : first ∉ front) (text : List UInt8) :
    kstrstr (first :: needle) (front ++ text) =
      (kstrstr (first :: needle) text).map (· + front.length) := by
  induction front with
  | nil => simp
  | cons byte front ih =>
      simp only [List.mem_cons, not_or] at absent
      rw [List.cons_append, kstrstr_cons (Ne.symm absent.1), ih absent.2, Option.map_map]
      congr 1

theorem kstrstr_here (text : List UInt8) :
    kstrstr (first :: needle) (first :: needle ++ text) = some 0 := by
  have here : (first :: needle).isPrefixOf (first :: (needle ++ text)) = true := by
    simp
  rw [List.cons_append, kstrstr, if_pos here]

theorem kstrstr_after {front : List UInt8} (absent : first ∉ front) (text : List UInt8) :
    kstrstr (first :: needle) (front ++ (first :: needle ++ text)) = some front.length := by
  rw [kstrstr_skip absent, kstrstr_here]
  simp

/-- Nothing is found behind an occurrence. -/
theorem kstrstr_le (front text : List UInt8) :
    ∃ offset ≤ front.length,
      kstrstr (first :: needle) (front ++ (first :: needle ++ text)) = some offset := by
  induction front with
  | nil => exact ⟨0, Nat.le_refl 0, kstrstr_here text⟩
  | cons byte front ih =>
      obtain ⟨offset, early, found⟩ := ih
      rw [List.cons_append, kstrstr]
      split
      · exact ⟨0, Nat.zero_le _, rfl⟩
      · exact ⟨offset + 1, Nat.succ_le_succ early, by rw [found]; rfl⟩

end Search

/-- Lines, each with its end. -/
def withEnds (lines : List (List UInt8)) : List UInt8 := lines.flatMap (· ++ crlf)

@[simp]
theorem withEnds_cons (line : List UInt8) (lines : List (List UInt8)) :
    withEnds (line :: lines) = line ++ (crlf ++ withEnds lines) := by
  simp [withEnds]

theorem withEnds_ends (line : List UInt8) (lines : List (List UInt8)) :
    crlf <:+ withEnds (line :: lines) := by
  induction lines generalizing line with
  | nil =>
      rw [withEnds_cons]
      exact ⟨line, by simp [withEnds]⟩
  | cons next lines ih =>
      rw [withEnds_cons, ← List.append_assoc]
      exact (ih next).trans (List.suffix_append _ _)

/-- The line has a text that can stand in a line. -/
structure IsLine (line : List UInt8) : Prop where
  filled : line ≠ []
  unbroken : (0x0D : UInt8) ∉ line
  unterminated : (0 : UInt8) ∉ line

theorem kstrstr_next_line {line next rest : List UInt8} (unbroken : (0x0D : UInt8) ∉ line)
    (isLine : IsLine next) :
    kstrstr (crlf ++ crlf) (line ++ (crlf ++ (next ++ rest))) =
      (kstrstr (crlf ++ crlf) (next ++ rest)).map (· + (line.length + 2)) := by
  obtain ⟨byte, next, rfl⟩ := List.exists_cons_of_ne_nil isLine.filled
  have other : byte ≠ 0x0D := fun same => isLine.unbroken (by simp [same])
  have missed : ¬ (crlf ++ crlf).isPrefixOf (0x0D :: 0x0A :: (byte :: next ++ rest)) = true := by
    simp [Ne.symm other]
  change kstrstr (0x0D :: [0x0A, 0x0D, 0x0A]) _ = _
  rw [kstrstr_skip unbroken]
  change Option.map _ (kstrstr (crlf ++ crlf) (0x0D :: 0x0A :: (byte :: next ++ rest))) = _
  rw [kstrstr, if_neg missed]
  change Option.map _ (Option.map _ (kstrstr (0x0D :: [0x0A, 0x0D, 0x0A]) _)) = _
  rw [kstrstr_cons (by decide), Option.map_map, Option.map_map]
  congr 1
  funext offset
  simp only [Function.comp_apply]
  omega

/-- The empty line is found at the end of the last line. -/
theorem kstrstr_withEnds {lines : List (List UInt8)} (areLines : ∀ line ∈ lines, IsLine line)
    (filled : lines ≠ []) (rest : List UInt8) :
    ∃ offset, kstrstr (crlf ++ crlf) (withEnds lines ++ (crlf ++ rest)) = some offset ∧
      offset + 2 = (withEnds lines).length := by
  induction lines with
  | nil => exact absurd rfl filled
  | cons line lines ih =>
  have isLine := areLines line (by simp)
  cases lines with
  | nil =>
      refine ⟨line.length, ?_, by simp [withEnds]⟩
      have found := @kstrstr_after 0x0D [0x0A, 0x0D, 0x0A] line isLine.unbroken rest
      simpa [withEnds] using found
  | cons next lines =>
  obtain ⟨offset, found, place⟩ := ih (fun line member => areLines line
    (List.mem_cons_of_mem _ member)) (by simp)
  refine ⟨offset + (line.length + 2), ?_, ?_⟩
  · have skipped := @kstrstr_next_line line next
      (crlf ++ withEnds lines ++ (crlf ++ rest)) isLine.unbroken
      (areLines next (by simp))
    simp only [withEnds_cons, List.append_assoc] at skipped found ⊢
    rw [skipped, found]
    rfl
  · rw [withEnds_cons, List.length_append, List.length_append, ← place]
    simp
    omega

/-- A header field: its name and what stands behind the colon. -/
structure HeaderField where
  name : List UInt8
  value : List UInt8
  named : IsLine name
  uncolonned : (0x3A : UInt8) ∉ name
  unbroken : (0x0D : UInt8) ∉ value
  unterminated : (0 : UInt8) ∉ value

namespace HeaderField

def line (field : HeaderField) : List UInt8 := field.name ++ 0x3A :: field.value

/-- The value without the blanks before it. -/
def content (field : HeaderField) : List UInt8 :=
  field.value.dropWhile fun byte => byte = 0x20 ∨ byte = 0x09

def isLength (field : HeaderField) : Bool := asciiEqual field.name "content-length"

def isCoding (field : HeaderField) : Bool := asciiEqual field.name "transfer-encoding"

theorem isLine (field : HeaderField) : IsLine field.line where
  filled := by simp [line]
  unbroken := by simp [line, field.named.unbroken, field.unbroken]
  unterminated := by simp [line, field.named.unterminated, field.unterminated]

end HeaderField

/-- The number that digits stand for. -/
def decimalValue (digits : List UInt8) : Nat :=
  digits.foldl (fun value byte => value * 10 + (byte.toNat - 0x30)) 0

/-- A decimal number of at most 32 bits. -/
structure IsDecimal (text : List UInt8) : Prop where
  filled : text ≠ []
  digits : ∀ byte ∈ text, isDigit byte = true
  small : decimalValue text < 2 ^ 32

/-- A response head of HTTP/1: its fields have at most one length, which is a number, and
no chunked coding.  The reason begins right behind the status. -/
structure ResponseHead where
  version : UInt8
  status : List UInt8
  reason : List UInt8
  fields : List HeaderField
  versionDigit : isDigit version = true
  threeDigits : status.length = 3
  statusDigits : ∀ byte ∈ status, isDigit byte = true
  reasonUnbroken : (0x0D : UInt8) ∉ reason
  reasonUnterminated : (0 : UInt8) ∉ reason
  oneLength : (fields.filter HeaderField.isLength).length ≤ 1
  decimal : ∀ field ∈ fields, field.isLength = true → IsDecimal field.content
  unchunked : ∀ field ∈ fields, field.isCoding = true →
    asciiEqual field.content "chunked" = false

namespace ResponseHead

def statusLine (head : ResponseHead) : List UInt8 :=
  ascii "HTTP/1." ++ (head.version :: 0x20 :: (head.status ++ head.reason))

def text (head : ResponseHead) : List UInt8 :=
  withEnds (head.statusLine :: head.fields.map HeaderField.line) ++ crlf

/-- The length of the body, if the head tells it. -/
def contentLength (head : ResponseHead) : Option Nat :=
  (head.fields.find? HeaderField.isLength).map fun field => decimalValue field.content

end ResponseHead

theorem isDigit_iff {byte : UInt8} :
    isDigit byte = true ↔ 0x30 ≤ byte.toNat ∧ byte.toNat ≤ 0x39 := by
  simp [isDigit, UInt8.le_iff_toNat_le]

theorem le_decimal (digits : List UInt8) (value : Nat) :
    value ≤ digits.foldl (fun value byte => value * 10 + (byte.toNat - 0x30)) value := by
  induction digits generalizing value with
  | nil => exact Nat.le_refl value
  | cons byte digits ih =>
      have step : value ≤ value * 10 + (byte.toNat - 0x30) := by omega
      exact step.trans (ih _)

theorem parseDigits_eq {digits : List UInt8} {value : Nat}
    (areDigits : ∀ byte ∈ digits, isDigit byte = true)
    (small : digits.foldl (fun value byte => value * 10 + (byte.toNat - 0x30)) value < 2 ^ 32) :
    parseDigits value digits =
      some (digits.foldl (fun value byte => value * 10 + (byte.toNat - 0x30)) value) := by
  induction digits generalizing value with
  | nil => rfl
  | cons byte digits ih =>
  have isByteDigit := areDigits byte (by simp)
  have range := isDigit_iff.mp isByteDigit
  have step := le_decimal digits (value * 10 + (byte.toNat - 0x30))
  rw [List.foldl_cons] at small ⊢
  have fits : ¬ value > (0xFFFFFFFF - (byte.toNat - 0x30)) / 10 := by omega
  simp only [parseDigits, isByteDigit, Bool.not_true, Bool.false_eq_true, ↓reduceIte, fits]
  exact ih (fun byte member => areDigits byte (List.mem_cons_of_mem _ member)) small

theorem IsDecimal.parse {text : List UInt8} (decimal : IsDecimal text) :
    parseDecimal text = some (BitVec.ofNat 32 (decimalValue text)) := by
  have filled : text.length ≠ 0 := by simpa using decimal.filled
  rw [parseDecimal, if_neg filled, parseDigits_eq decimal.digits decimal.small]
  rfl

/-! ## Fields -/

/-- What `parse_headers` makes of fields one after the other. -/
def readFields (http : Http) (fields : List HeaderField) : Option Http :=
  fields.foldlM (fun http field => parseField http field.name field.content) http

/-- Fields that do not concern the body change nothing. -/
theorem readFields_plain {fields : List HeaderField} (http : Http)
    (unmeasured : ∀ field ∈ fields, field.isLength = false)
    (unchunked : ∀ field ∈ fields, field.isCoding = true →
      asciiEqual field.content "chunked" = false) : readFields http fields = some http := by
  induction fields with
  | nil => rfl
  | cons field fields ih =>
  have plain : parseField http field.name field.content = some http := by
    have notLength : asciiEqual field.name "content-length" = false :=
      unmeasured field (by simp)
    have notChunked := unchunked field (by simp)
    simp only [HeaderField.isCoding] at notChunked
    simp only [parseField, notLength, Bool.false_eq_true, ↓reduceIte]
    split
    · next coding => simp [notChunked coding]
    · rfl
  rw [readFields, List.foldlM_cons, plain]
  exact ih (fun field member => unmeasured field (List.mem_cons_of_mem _ member))
    fun field member => unchunked field (List.mem_cons_of_mem _ member)

theorem readFields_append {http middle : Http} {front : List HeaderField}
    (read : readFields http front = some middle) (back : List HeaderField) :
    readFields http (front ++ back) = readFields middle back := by
  rw [readFields] at read
  rw [readFields, List.foldlM_append, read]
  rfl

/-- The state after the fields of a head. -/
def Http.measure (http : Http) : Option Nat → Http
  | none => http
  | some length =>
      { http with hasContentLength := true, expectedBody := BitVec.ofNat 32 length }

theorem ResponseHead.readFields_eq (head : ResponseHead) {http : Http}
    (unmeasured : http.hasContentLength = false) :
    readFields http head.fields = some (http.measure head.contentLength) := by
  cases found : head.fields.find? HeaderField.isLength with
  | none =>
      rw [contentLength, found]
      refine readFields_plain http (fun field member => ?_) head.unchunked
      simpa using List.find?_eq_none.mp found field member
  | some field =>
  obtain ⟨isLength, front, back, split, before⟩ := List.find?_eq_some_iff_append.mp found
  have member : field ∈ head.fields := by simp [split]
  have after : ∀ other ∈ back, other.isLength = false := by
    have one := head.oneLength
    rw [split, List.filter_append, List.filter_cons_of_pos isLength, List.length_append,
      List.length_cons] at one
    have none_ : (back.filter HeaderField.isLength).length = 0 := by omega
    rw [List.length_eq_zero_iff, List.filter_eq_nil_iff] at none_
    intro other member
    simpa using none_ other member
  have measured : parseField http field.name field.content =
      some (http.measure (some (decimalValue field.content))) := by
    have isLength : asciiEqual field.name "content-length" = true := isLength
    simp only [parseField, isLength, ↓reduceIte, (head.decimal field member isLength).parse,
      unmeasured, Bool.false_eq_true, false_and]
    rfl
  have unchunked := head.unchunked
  rw [contentLength, found]
  rw [split] at unchunked ⊢
  rw [readFields_append (readFields_plain http (fun other member => by
      simpa using before other member) fun other member =>
        unchunked other (List.mem_append_left _ member)),
    readFields, List.foldlM_cons, measured]
  exact readFields_plain _ after fun other member =>
    unchunked other (List.mem_append_right _ (List.mem_cons_of_mem _ member))

theorem length_fields_le (fields : List HeaderField) :
    fields.length ≤ (withEnds (fields.map HeaderField.line)).length := by
  induction fields with
  | nil => exact Nat.le_refl 0
  | cons field fields ih =>
      simp only [List.map_cons, withEnds_cons, List.length_append, List.length_cons]
      omega

theorem parseFields_walk {fields : List HeaderField} {http after : Http}
    (read : readFields http fields = some after) {text front back : List UInt8}
    {headersEnd steps : Nat}
    (there : text = front ++ (withEnds (fields.map HeaderField.line) ++ back))
    (ends : headersEnd + 2 = (front ++ withEnds (fields.map HeaderField.line)).length)
    (enough : fields.length < steps) :
    parseFields text headersEnd steps front.length http = (true, after) := by
  induction fields generalizing front http steps with
  | nil =>
      obtain ⟨steps, rfl⟩ := Nat.exists_eq_succ_of_ne_zero (Nat.ne_of_gt enough)
      have past : front.length ≥ headersEnd := by
        simp only [List.map_nil, withEnds, List.flatMap_nil, List.append_nil] at ends
        omega
      rw [parseFields, if_pos past]
      exact congrArg (Prod.mk true) (Option.some.inj read)
  | cons field fields ih =>
  obtain ⟨steps, rfl⟩ := Nat.exists_eq_succ_of_ne_zero (Nat.ne_of_gt (Nat.zero_lt_of_lt enough))
  rw [readFields, List.foldlM_cons] at read
  cases taken : parseField http field.name field.content with
  | none =>
      rw [taken] at read
      cases read
  | some next =>
  rw [taken] at read
  rw [List.map_cons, withEnds_cons] at there ends
  simp only [List.length_append, List.length_cons, List.length_nil] at ends
  have filled : 0 < field.line.length := List.length_pos_of_ne_nil field.isLine.filled
  have before : ¬ front.length ≥ headersEnd := by omega
  have drop : text.drop front.length = field.line ++ (crlf ++
      (withEnds (fields.map HeaderField.line) ++ back)) := by
    rw [there, List.drop_left]
    simp [List.append_assoc]
  have found : kstrstr crlf (text.drop front.length) = some field.line.length := by
    rw [drop]
    exact kstrstr_after field.isLine.unbroken _
  have inside : ¬ front.length + field.line.length > headersEnd := by omega
  have content : (text.drop front.length).take field.line.length = field.line := by
    rw [drop, List.take_left]
  have name : field.line.takeWhile (· ≠ 0x3A) = field.name := by
    have uncolonned : ∀ byte ∈ field.name, decide (byte ≠ 0x3A) = true := by
      intro byte member
      rw [decide_eq_true_eq]
      exact ne_of_mem_of_not_mem member field.uncolonned
    rw [HeaderField.line, List.takeWhile_append_of_pos uncolonned]
    simp
  have value : field.line.drop (field.name.length + 1) = field.value := by
    simp [HeaderField.line]
  have named : ¬ (field.name.length = 0 ∨ field.name.length = field.line.length) := by
    have nameFilled := List.length_pos_of_ne_nil field.named.filled
    simp only [HeaderField.line, List.length_append, List.length_cons]
    omega
  have rest := @ih next read (front ++ (field.line ++ crlf)) steps
    (by rw [there]; simp [List.append_assoc]) (by
      simp only [List.length_append, List.length_cons, List.length_nil]
      omega) (Nat.lt_of_succ_lt_succ enough)
  simp only [List.length_append, List.length_cons, List.length_nil] at rest
  simp only [parseFields, if_neg before, found, if_neg inside, content, name, value,
    if_neg named]
  rw [show (field.value.dropWhile fun byte => decide (byte = 0x20 ∨ byte = 0x09)) =
    field.content from rfl, taken]
  exact rest

theorem ne_of_isDigit {byte other : UInt8} (digit : isDigit byte = true)
    (outside : isDigit other = false) : byte ≠ other := by
  rintro rfl
  rw [digit] at outside
  cases outside

namespace ResponseHead

variable (head : ResponseHead)

theorem statusLine_isLine : IsLine head.statusLine where
  filled := by simp [statusLine, ascii]
  unbroken := by
    have version := @ne_of_isDigit head.version 0x0D head.versionDigit (by decide)
    have status : (0x0D : UInt8) ∉ head.status := fun member =>
      ne_of_isDigit (head.statusDigits _ member) (by decide) rfl
    simp [statusLine, ascii, Ne.symm version, status, head.reasonUnbroken]
  unterminated := by
    have version := @ne_of_isDigit head.version 0 head.versionDigit (by decide)
    have status : (0 : UInt8) ∉ head.status := fun member =>
      ne_of_isDigit (head.statusDigits _ member) (by decide) rfl
    simp [statusLine, ascii, Ne.symm version, status, head.reasonUnterminated]

theorem length_statusLine : head.statusLine.length = 12 + head.reason.length := by
  simp [statusLine, ascii, head.threeDigits]
  omega

theorem lines : ∀ line ∈ head.statusLine :: head.fields.map HeaderField.line, IsLine line := by
  simp only [List.forall_mem_cons, List.forall_mem_map]
  exact ⟨head.statusLine_isLine, fun field _ => field.isLine⟩

theorem text_eq : head.text =
    head.statusLine ++ (crlf ++ (withEnds (head.fields.map HeaderField.line) ++ crlf)) := by
  simp [text, List.append_assoc]

/-- A head has no zero byte. -/
theorem text_takeWhile : head.text.takeWhile (· ≠ 0) = head.text := by
  have lineEnds : ∀ lines : List (List UInt8), (∀ line ∈ lines, IsLine line) →
      (0 : UInt8) ∉ withEnds lines := by
    intro lines areLines member
    obtain ⟨line, listed, inside⟩ := List.mem_flatMap.mp member
    simp only [List.mem_append] at inside
    rcases inside with inside | inside
    · exact (areLines line listed).unterminated inside
    · exact absurd inside (by decide)
  have none_ : (0 : UInt8) ∉ head.text := by
    rw [text, List.mem_append, not_or]
    exact ⟨lineEnds _ head.lines, by decide⟩
  rw [List.takeWhile_eq_self_iff]
  intro byte member
  rw [decide_eq_true_eq]
  exact ne_of_mem_of_not_mem member none_

theorem parseHeaders_eq {http : Http} (buffer : http.headerBuffer = head.text)
    (unmeasured : http.hasContentLength = false) (unchunked : http.chunkedEncoding = false) :
    parseHeaders http =
      if head.fields = [] then
        (false, { http with responseStatus := BitVec.ofNat 16 (decimalValue head.status) })
      else
        (true, { http.measure head.contentLength with
          responseStatus := BitVec.ofNat 16 (decimalValue head.status)
          headersDone := true }) := by
  have text := head.text_eq
  have lineEnd : kstrstr crlf head.text = some head.statusLine.length := by
    rw [text]
    exact kstrstr_after head.statusLine_isLine.unbroken _
  have long : ¬ head.statusLine.length < 12 := by
    rw [head.length_statusLine]
    omega
  have protocol : head.text.take 5 = ascii "HTTP/" := by
    rw [text, statusLine]
    rfl
  have space : kstrstr (ascii " ") head.text = some 8 := by
    have version := @ne_of_isDigit head.version 0x20 head.versionDigit (by decide)
    have absent : (0x20 : UInt8) ∉ ascii "HTTP/1." ++ [head.version] := by
      simp [ascii, Ne.symm version]
    rw [text, statusLine]
    have found := @kstrstr_after 0x20 [] _ absent (head.status ++ head.reason ++
      (crlf ++ (withEnds (head.fields.map HeaderField.line) ++ crlf)))
    simp only [List.append_assoc, List.cons_append, List.nil_append] at found ⊢
    exact found
  have digits : (head.text.drop 9).take 3 = head.status := by
    have drop : head.text.drop 9 = head.status ++ (head.reason ++
        (crlf ++ (withEnds (head.fields.map HeaderField.line) ++ crlf))) := by
      rw [text, statusLine]
      simp [ascii]
    rw [drop, ← head.threeDigits, List.take_left]
  have allDigits : head.status.all isDigit = true := by
    simpa using head.statusDigits
  have rest : head.text.drop (head.statusLine.length + 2) =
      withEnds (head.fields.map HeaderField.line) ++ crlf := by
    rw [text, ← List.append_assoc]
    exact List.drop_left' (by simp)
  have terminated : http.headerBuffer.takeWhile (· ≠ 0) = head.text := by
    rw [buffer, text_takeWhile]
  simp only [parseHeaders, terminated, lineEnd, long, protocol, space, digits, allDigits, rest,
    ne_eq, not_true_eq_false, Bool.not_true, Bool.false_eq_true, or_false, ↓reduceIte]
  by_cases empty : head.fields = []
  · rw [empty]
    rfl
  obtain ⟨offset, found, place⟩ := @kstrstr_withEnds (head.fields.map HeaderField.line)
    (fun line member => head.lines line (List.mem_cons_of_mem _ member))
    (by simpa using empty) []
  rw [List.append_nil] at found
  have read := @readFields_eq head
    { http with responseStatus := BitVec.ofNat 16 (decimalValue head.status) } unmeasured
  have walk := @parseFields_walk _ _ _ read head.text (head.statusLine ++ crlf) crlf
    (head.statusLine.length + 2 + offset) (head.text.length + 1)
    (by rw [text]; simp [List.append_assoc])
    (by
      simp only [List.length_append, List.length_cons, List.length_nil, ← place]
      omega)
    (by
      have few := length_fields_le head.fields
      rw [text]
      simp only [List.length_append]
      omega)
  simp only [List.length_append, List.length_cons, List.length_nil, Nat.zero_add] at walk
  have still : ¬ (Http.measure
      { http with responseStatus := BitVec.ofNat 16 (decimalValue head.status) }
      head.contentLength).chunkedEncoding = true := by
    rw [Bool.not_eq_true]
    cases head.contentLength <;> exact unchunked
  rw [found, if_neg empty]
  dsimp only [decimalValue] at walk ⊢
  rw [walk]
  refine (if_neg still).trans ?_
  cases head.contentLength <;> rfl

/-- A head ends with an empty line. -/
theorem text_ends : (crlf ++ crlf) <:+ head.text := by
  obtain ⟨front, ends⟩ := withEnds_ends head.statusLine (head.fields.map HeaderField.line)
  exact ⟨front, by rw [text, ← ends, List.append_assoc]⟩

/-- No empty line comes before the end of a head. -/
theorem text_not_early {front back : List UInt8} (split : front ++ back = head.text)
    (more : back ≠ []) : ¬ (crlf ++ crlf) <:+ front := by
  rintro ⟨early, rfl⟩
  obtain ⟨offset, found, place⟩ := kstrstr_withEnds head.lines (by simp) []
  obtain ⟨offset', before, found'⟩ := @kstrstr_le 0x0D [0x0A, 0x0D, 0x0A] early back
  have same : offset = offset' := by
    apply Option.some.inj
    rw [← found, ← found', List.append_nil]
    change kstrstr (crlf ++ crlf) head.text = _
    rw [← split, List.append_assoc]
    rfl
  have length := congrArg List.length split
  have filled := List.length_pos_of_ne_nil more
  simp only [text, List.length_append, ← place, List.length_cons, List.length_nil] at length
  omega

end ResponseHead

/-! ## Reception -/

/-- The header loop of `http_on_data` when the head is complete. -/
def headRead (key connection : Nat) (body : List UInt8) :
    Bool × Http → Bool × Http × List UInt8
  | (false, http) => (false, http, body)
  | (true, http) =>
      (true, http.report http.headersCallback (some key) connection
        (.headers http.responseStatus http.hasContentLength http.expectedBody), body)

namespace ResponseHead

variable (head : ResponseHead)

theorem readHeaders_rest (short : head.text.length ≤ httpHeaderMax) (key connection : Nat)
    (body : List UInt8) {front back : List UInt8} (split : front ++ back = head.text)
    (more : back ≠ []) {http : Http} (buffer : http.headerBuffer = front)
    (undone : http.headersDone = false) (unmeasured : http.hasContentLength = false)
    (unchunked : http.chunkedEncoding = false) :
    readHeaders key connection http (back ++ body) =
      headRead key connection body (parseHeaders { http with headerBuffer := head.text }) := by
  induction back generalizing front http with
  | nil => exact absurd rfl more
  | cons byte back ih =>
  have length := congrArg List.length split
  simp only [List.length_append, List.length_cons] at length
  have room : ¬ http.headerBuffer.length ≥ httpHeaderMax := by
    rw [buffer]
    omega
  have pushed : (http.push byte).headerBuffer = front ++ [byte] := by
    rw [Http.push, buffer]
  rw [List.cons_append, readHeaders_push key connection undone room]
  by_cases last : back = []
  · subst last
    have complete : http.push byte = { http with headerBuffer := head.text } := by
      rw [Http.push, buffer, split]
    have ends : (crlf ++ crlf).isSuffixOf (http.push byte).headerBuffer = true := by
      rw [complete, List.isSuffixOf_iff_suffix]
      exact head.text_ends
    rw [if_pos ends, complete]
    have parsed := @parseHeaders_eq head { http with headerBuffer := head.text } rfl unmeasured
      unchunked
    have done : (parseHeaders { http with headerBuffer := head.text }).1 = true →
        (parseHeaders { http with headerBuffer := head.text }).2.headersDone = true := by
      rw [parsed]
      split
      · exact fun failed => by cases failed
      · exact fun _ => rfl
    generalize parseHeaders _ = result at done
    obtain ⟨ok, after⟩ := result
    cases ok with
    | false => rfl
    | true =>
        refine readHeaders_done key connection ?_ body
        simp only [Http.report]
        split <;> exact done rfl
  · have early : ¬ (crlf ++ crlf).isSuffixOf (http.push byte).headerBuffer = true := by
      rw [pushed, List.isSuffixOf_iff_suffix]
      exact head.text_not_early (by rw [← split]; simp) last
    rw [if_neg early]
    exact ih (by rw [← split]; simp) last pushed undone unmeasured unchunked

/-- The client has understood a head. -/
structure Understood (result : Bool × Http) : Prop where
  success : result.1 = true
  headersDone : result.2.headersDone = true
  status : result.2.responseStatus.toNat = decimalValue head.status
  measured : result.2.hasContentLength = head.contentLength.isSome
  length : ∀ length ∈ head.contentLength, result.2.expectedBody.toNat = length

theorem status_lt : decimalValue head.status < 2 ^ 16 := by
  obtain ⟨first, second, third, digits⟩ := List.length_eq_three.mp head.threeDigits
  have small : ∀ byte ∈ head.status, byte.toNat ≤ 0x39 := fun byte member =>
    (isDigit_iff.mp (head.statusDigits byte member)).2
  simp only [digits, List.mem_cons, forall_eq_or_imp] at small
  simp only [digits, decimalValue, List.foldl_cons, List.foldl_nil]
  omega

theorem contentLength_lt {length : Nat} (known : length ∈ head.contentLength) :
    length < 2 ^ 32 := by
  simp only [contentLength, Option.mem_map] at known
  obtain ⟨field, found, rfl⟩ := known
  exact (head.decimal field (List.mem_of_find?_eq_some found)
    (List.find?_some found)).small

end ResponseHead

/-- A well-formed head of at most 2048 bytes is read up to its end and understood, exactly
when it has a header field. -/
theorem http_head_understood (head : ResponseHead) (short : head.text.length ≤ httpHeaderMax)
    {http : Http} (awaits : AwaitsHead http) (key connection : Nat) (body : List UInt8) :
    readHeaders key connection http (head.text ++ body) =
        headRead key connection body (parseHeaders { http with headerBuffer := head.text }) ∧
      (head.Understood (parseHeaders { http with headerBuffer := head.text }) ↔
        head.fields ≠ []) := by
  constructor
  · have filled : head.text ≠ [] := by simp [ResponseHead.text]
    exact head.readHeaders_rest short key connection body (List.nil_append _) filled
      awaits.headerBuffer awaits.headersDone awaits.hasContentLength awaits.chunkedEncoding
  have parsed := @ResponseHead.parseHeaders_eq head { http with headerBuffer := head.text } rfl
    awaits.hasContentLength awaits.chunkedEncoding
  rw [parsed]
  constructor
  · intro understood empty
    rw [if_pos empty] at understood
    cases understood.success
  intro filled
  rw [if_neg filled]
  exact {
    success := rfl
    headersDone := rfl
    status := by
      rw [BitVec.toNat_ofNat]
      exact Nat.mod_eq_of_lt head.status_lt
    measured := by
      cases head.contentLength with
      | none => exact awaits.hasContentLength
      | some length => rfl
    length := by
      intro length known
      have small := head.contentLength_lt known
      rw [Option.mem_def.mp known]
      exact (BitVec.toNat_ofNat _ _).trans (Nat.mod_eq_of_lt small) }

/-- `HTTP/1.0 200 OK` and an empty line. -/
def bareHead : ResponseHead where
  version := 0x30
  status := ascii "200"
  reason := ascii " OK"
  fields := []
  versionDigit := by decide
  threeDigits := by decide
  statusDigits := List.all_eq_true.mp (by decide)
  reasonUnbroken := by decide
  reasonUnterminated := by decide
  oneLength := by decide
  decimal := List.forall_mem_nil _
  unchunked := List.forall_mem_nil _

/-- The head is not recognised, and the request fails. -/
theorem bare_head_rejected :
    bareHead.text = ascii "HTTP/1.0 200 OK\r\n\r\n" ∧ AwaitsHead requestWorld.user ∧
      ¬ bareHead.Understood
        (parseHeaders { requestWorld.user with headerBuffer := bareHead.text }) ∧
      (httpOnData 1 bareHead.text requestWorld).user.reports =
        [⟨1, some 1, 0, false, bareHead.text, .complete false⟩] := by
  refine ⟨by decide, ⟨rfl, rfl, rfl, rfl⟩, fun understood => ?_, by decide +kernel⟩
  have failed : (parseHeaders { requestWorld.user with headerBuffer := bareHead.text }).1 =
      false := by
    decide +kernel
  rw [understood.success] at failed
  cases failed

/-- A head that tells a length. -/
def measuredHead : ResponseHead where
  version := 0x31
  status := ascii "404"
  reason := ascii " Not Found"
  fields := [{
    name := ascii "Content-LENGTH"
    value := ascii " \t0042"
    named := ⟨by decide, by decide, by decide⟩
    uncolonned := by decide
    unbroken := by decide
    unterminated := by decide }]
  versionDigit := by decide
  threeDigits := by decide
  statusDigits := List.all_eq_true.mp (by decide)
  reasonUnbroken := by decide
  reasonUnterminated := by decide
  oneLength := by decide
  decimal := by
    intro field member _
    rw [List.mem_singleton] at member
    subst member
    exact ⟨by decide, List.all_eq_true.mp (by decide), by decide⟩
  unchunked := by
    intro field member coding
    rw [List.mem_singleton] at member
    subst member
    exact absurd coding (by decide)

/-- The general statement at a head with one field. -/
theorem http_head_understood_measured :
    measuredHead.contentLength = some 42 ∧
      measuredHead.Understood
        (parseHeaders { requestWorld.user with headerBuffer := measuredHead.text }) := by
  refine ⟨by decide, ?_⟩
  exact (http_head_understood measuredHead (by decide) ⟨rfl, rfl, rfl, rfl⟩ 1 0 []).2.mpr
    (by simp [measuredHead])

end Charis.Net
