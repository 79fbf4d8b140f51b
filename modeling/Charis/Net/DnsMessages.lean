import Charis.Net.DnsNames

/-!
# Responses of a name server

A response is read from front to back, and only as much of each name as is written out.
So whatever questions and records it has, the parser is at the start of each of them when
it gets there.
-/

namespace Charis.Net

variable {κ σ : Type}

/-- An entry of the question section. -/
structure DnsQuestion where
  name : DnsName
  type : BitVec 16
  klass : BitVec 16

def DnsQuestion.encode (question : DnsQuestion) : List UInt8 :=
  question.name.encode ++ (be16 question.type ++ be16 question.klass)

/-- A resource record. -/
structure DnsRecord where
  name : DnsName
  type : BitVec 16
  klass : BitVec 16
  ttl : BitVec 32
  data : List UInt8
  short : data.length < 65536

/-- The fields between the name and the data of a record. -/
def DnsRecord.fields (record : DnsRecord) : List UInt8 :=
  be16 record.type ++ (be16 record.klass ++ (be32 record.ttl ++
    be16 (BitVec.ofNat 16 record.data.length)))

def DnsRecord.encode (record : DnsRecord) : List UInt8 :=
  record.name.encode ++ (record.fields ++ record.data)

/-- The address that a record gives: it is of type A and class IN, and its data are the
four bytes of an address that is not zero. -/
def DnsRecord.address (record : DnsRecord) : Option Ipv4 :=
  if record.type = 1 ∧ record.klass = 1 ∧ record.data.length = 4 ∧
      readBe32 record.data 0 ≠ 0 then
    some (readBe32 record.data 0)
  else none

/-- A response without errors to a query with at least one question.  The other sections
are not read. -/
structure DnsResponse where
  id : BitVec 16
  flags : BitVec 16
  questions : List DnsQuestion
  answers : List DnsRecord
  authorities : BitVec 16
  additionals : BitVec 16
  others : List UInt8
  isResponse : flags.getLsbD 15 = true
  whole : flags.getLsbD 9 = false
  noError : flags &&& 0x000F = 0
  asked : questions ≠ []
  questionCount : questions.length < 65536
  answerCount : answers.length < 65536

namespace DnsResponse

def header (response : DnsResponse) : List UInt8 :=
  be16 response.id ++ (be16 response.flags ++ (be16 (BitVec.ofNat 16 response.questions.length) ++
    (be16 (BitVec.ofNat 16 response.answers.length) ++
      (be16 response.authorities ++ be16 response.additionals))))

def encode (response : DnsResponse) : List UInt8 :=
  response.header ++ (response.questions.flatMap DnsQuestion.encode ++
    (response.answers.flatMap DnsRecord.encode ++ response.others))

/-- The first address among the answers. -/
def address (response : DnsResponse) : Option Ipv4 :=
  response.answers.findSome? DnsRecord.address

end DnsResponse

theorem readBe16_between (before : List UInt8) (value : BitVec 16) (after : List UInt8)
    {offset : Nat} (here : before.length = offset) :
    readBe16 (before ++ (be16 value ++ after)) offset = value := by
  rw [← here]
  exact readBe16_be16 before value after

theorem readBe32_drop (bytes : List UInt8) (count offset : Nat) :
    readBe32 (bytes.drop count) offset = readBe32 bytes (count + offset) := by
  rw [readBe32, readBe32, readBe16_drop, readBe16_drop]
  rfl

theorem skipQuestions_encode (before : List UInt8) (questions : List DnsQuestion)
    (after : List UInt8) :
    skipQuestions (before ++ (questions.flatMap DnsQuestion.encode ++ after)) questions.length
        before.length =
      some (before.length + (questions.flatMap DnsQuestion.encode).length) := by
  induction questions generalizing before with
  | nil => rfl
  | cons question questions ih =>
  have shape : before ++ ((question :: questions).flatMap DnsQuestion.encode ++ after) =
      before ++ (question.name.encode ++ ((be16 question.type ++ be16 question.klass) ++
        (questions.flatMap DnsQuestion.encode ++ after))) := by
    simp only [List.flatMap_cons, DnsQuestion.encode, List.append_assoc]
  have deeper := ih (before ++ question.encode)
  simp only [DnsQuestion.encode, List.append_assoc, List.length_append, length_be16]
    at deeper shape
  have inside : before.length + question.name.encode.length + 4 ≤
      (before ++ (question.name.encode ++ (be16 question.type ++ (be16 question.klass ++
        (questions.flatMap DnsQuestion.encode ++ after))))).length := by
    simp only [List.length_append, length_be16]
    omega
  rw [shape, List.length_cons, skipQuestions, skipName_encode]
  dsimp only
  rw [if_neg (not_lt.mpr inside), Nat.add_assoc before.length, deeper, List.flatMap_cons,
    List.length_append]
  simp only [DnsQuestion.encode, List.length_append, length_be16]
  congr 1
  omega

theorem findAddress_record (before : List UInt8) (record : DnsRecord) (after : List UInt8)
    (count : Nat) :
    findAddress (before ++ (record.encode ++ after)) (count + 1) before.length =
      (record.address).or (findAddress (before ++ (record.encode ++ after)) count
        (before.length + record.encode.length)) := by
  obtain ⟨packet, packetEq⟩ : ∃ packet, packet = before ++ (record.encode ++ after) := ⟨_, rfl⟩
  obtain ⟨start, startEq⟩ : ∃ start, start = before ++ record.name.encode := ⟨_, rfl⟩
  have skipped : skipName packet 128 before.length = some start.length := by
    have found := skipName_encode before record.name (record.fields ++ (record.data ++ after))
    rw [packetEq, DnsRecord.encode, startEq, List.length_append, List.append_assoc,
      List.append_assoc]
    exact found
  have type : readBe16 packet start.length = record.type := by
    have shape : packet = start ++ (be16 record.type ++ (be16 record.klass ++
        (be32 record.ttl ++ be16 (BitVec.ofNat 16 record.data.length)) ++
          (record.data ++ after))) := by
      rw [packetEq, startEq, DnsRecord.encode, DnsRecord.fields]
      simp only [List.append_assoc]
    rw [shape]
    exact readBe16_between _ _ _ rfl
  have klass : readBe16 packet (start.length + 2) = record.klass := by
    have shape : packet = (start ++ be16 record.type) ++ (be16 record.klass ++
        ((be32 record.ttl ++ be16 (BitVec.ofNat 16 record.data.length)) ++
          (record.data ++ after))) := by
      rw [packetEq, startEq, DnsRecord.encode, DnsRecord.fields]
      simp only [List.append_assoc]
    rw [shape]
    exact readBe16_between _ _ _ (by rw [List.length_append, length_be16])
  have rdlength : (readBe16 packet (start.length + 8)).toNat = record.data.length := by
    have shape : packet = (start ++ (be16 record.type ++ (be16 record.klass ++
        be32 record.ttl))) ++ (be16 (BitVec.ofNat 16 record.data.length) ++
          (record.data ++ after)) := by
      rw [packetEq, startEq, DnsRecord.encode, DnsRecord.fields]
      simp only [List.append_assoc]
    rw [shape, readBe16_between _ _ _ (by
      simp only [List.length_append, length_be16, length_be32])]
    exact (BitVec.toNat_ofNat _ _).trans (Nat.mod_eq_of_lt record.short)
  have data : record.data.length = 4 →
      readBe32 packet (start.length + 10) = readBe32 record.data 0 := by
    intro four
    have shape : packet = (start ++ record.fields) ++ (record.data ++ after) := by
      rw [packetEq, startEq, DnsRecord.encode]
      simp only [List.append_assoc]
    have place : (start ++ record.fields).length = start.length + 10 := by
      simp only [DnsRecord.fields, List.length_append, length_be16, length_be32]
    have there := readBe32_drop packet (start.length + 10) 0
    rw [shape, ← place, List.drop_left, readBe32_append _ (by omega)] at there
    rw [shape, ← place]
    exact there.symm
  have total : packet.length = start.length + 10 + (record.data.length + after.length) := by
    rw [packetEq, startEq, DnsRecord.encode, DnsRecord.fields]
    simp only [List.length_append, length_be16, length_be32]
    omega
  have next : before.length + record.encode.length =
      start.length + 10 + record.data.length := by
    rw [startEq, DnsRecord.encode, DnsRecord.fields]
    simp only [List.length_append, length_be16, length_be32]
    omega
  rw [← packetEq, findAddress, skipped]
  dsimp only
  rw [type, klass, rdlength, if_neg (by omega), if_neg (by omega), next, DnsRecord.address]
  by_cases four : record.data.length = 4
  · rw [data four]
    split
    · rfl
    · rfl
  · rw [if_neg (fun found => four found.2.2.1), if_neg (fun found => four found.2.2.1)]
    rfl

theorem findAddress_encode (before : List UInt8) (records : List DnsRecord)
    (after : List UInt8) :
    findAddress (before ++ (records.flatMap DnsRecord.encode ++ after)) records.length
        before.length =
      records.findSome? DnsRecord.address := by
  induction records generalizing before with
  | nil => rfl
  | cons record records ih =>
  have deeper := ih (before ++ record.encode)
  rw [List.append_assoc, List.length_append] at deeper
  rw [List.flatMap_cons, List.append_assoc, List.length_cons, findAddress_record, deeper,
    List.findSome?_cons]
  cases record.address with
  | none => rfl
  | some address => rfl

theorem parseResponse_encode (response : DnsResponse) :
    parseResponse response.encode = response.address := by
  have flags : readBe16 response.encode 2 = response.flags := by
    rw [DnsResponse.encode, DnsResponse.header]
    simp only [List.append_assoc]
    exact readBe16_between (be16 response.id) _ _ rfl
  have questions : (readBe16 response.encode 4).toNat = response.questions.length := by
    have found : readBe16 response.encode 4 = BitVec.ofNat 16 response.questions.length := by
      rw [DnsResponse.encode, DnsResponse.header]
      simp only [List.append_assoc]
      rw [← List.append_assoc (be16 response.id)]
      exact readBe16_between (be16 response.id ++ be16 response.flags) _ _ rfl
    rw [found]
    exact (BitVec.toNat_ofNat _ _).trans (Nat.mod_eq_of_lt response.questionCount)
  have answers : (readBe16 response.encode 6).toNat = response.answers.length := by
    have found : readBe16 response.encode 6 = BitVec.ofNat 16 response.answers.length := by
      have shape : response.encode = (be16 response.id ++ (be16 response.flags ++
          be16 (BitVec.ofNat 16 response.questions.length))) ++
          (be16 (BitVec.ofNat 16 response.answers.length) ++
            ((be16 response.authorities ++ be16 response.additionals) ++
              (response.questions.flatMap DnsQuestion.encode ++
                (response.answers.flatMap DnsRecord.encode ++ response.others)))) := by
        rw [DnsResponse.encode, DnsResponse.header]
        simp only [List.append_assoc]
      rw [shape]
      exact readBe16_between _ _ _ rfl
    rw [found]
    exact (BitVec.toNat_ofNat _ _).trans (Nat.mod_eq_of_lt response.answerCount)
  have accepted : ¬ ((!response.flags.getLsbD 15) = true ∨ response.flags.getLsbD 9 = true ∨
      response.flags &&& 0x000F ≠ 0 ∨ response.questions.length = 0) := by
    rw [response.isResponse, response.whole, List.length_eq_zero_iff]
    rintro (no | cut | error | none)
    · cases no
    · cases cut
    · exact error response.noError
    · exact response.asked none
  have front : response.header.length = 12 := rfl
  have skipped := skipQuestions_encode response.header response.questions
    (response.answers.flatMap DnsRecord.encode ++ response.others)
  have found := findAddress_encode
    (response.header ++ response.questions.flatMap DnsQuestion.encode) response.answers
    response.others
  rw [List.append_assoc, List.length_append] at found
  rw [front] at skipped found
  rw [parseResponse, flags, questions, answers, if_neg accepted, DnsResponse.encode, skipped,
    Option.bind_some, found, DnsResponse.address]

/-- The world in which the callback of a query is called: the query is over. -/
def World.answered (world : World κ σ) (key : κ) (address : Ipv4) (success : Bool) : World κ σ :=
  { world with
    dns := { world.dns with
      active := false
      pendingCallback := none
      answers := world.dns.answers ++ [(key, address, success)] } }

/-- A response to the active query is reported to its callback, once the query is over: with the
first address among the answers, and as a failure if there is none. -/
theorem dns_response_reported (callbacks : Callbacks κ σ) {world : World κ σ}
    (response : DnsResponse) (active : world.dns.active = true)
    (sameId : response.id = world.dns.pendingId) {key : κ}
    (pending : world.dns.pendingCallback = some key) :
    (∀ address, response.address = some address →
        handleDnsResponse callbacks dnsPort world.dns.server response.encode world =
          callbacks.dnsAnswer key world.dns.pendingHost address true
            (world.answered key address true)) ∧
      (response.address = none →
        handleDnsResponse callbacks dnsPort world.dns.server response.encode world =
          callbacks.dnsAnswer key world.dns.pendingHost 0 false (world.answered key 0 false)) := by
  have id : readBe16 response.encode 0 = response.id := by
    rw [DnsResponse.encode, DnsResponse.header]
    simp only [List.append_assoc]
    exact readBe16_between [] _ _ rfl
  have length : 12 ≤ response.encode.length := by
    rw [DnsResponse.encode, List.length_append]
    exact Nat.le_add_right 12 _
  have ours : ¬ (!world.dns.active ∨ dnsPort ≠ dnsPort ∨ world.dns.server ≠ world.dns.server ∨
      response.encode.length < 12 ∨ readBe16 response.encode 0 ≠ world.dns.pendingId) := by
    rintro (idle | port | server | short | other)
    · rw [active] at idle
      cases idle
    · exact port rfl
    · exact server rfl
    · omega
    · exact other (id.trans sameId)
  have reported : handleDnsResponse callbacks dnsPort world.dns.server response.encode world =
      callbacks.dnsAnswer key world.dns.pendingHost (response.address.getD 0)
        response.address.isSome
        (world.answered key (response.address.getD 0) response.address.isSome) := by
    rw [handleDnsResponse, if_neg ours, parseResponse_encode, finishQuery, pending]
    rfl
  constructor
  · intro address found
    rw [reported, found]
    rfl
  · intro none
    rw [reported, none]
    rfl

/-- A name of one letter, and the pointer to it. -/
def oneLetter : DnsName := ⟨[⟨ascii "a", by decide, by decide⟩], .root, by decide⟩

def oneLetterAgain : DnsName := ⟨[], .pointer 0 12, by decide⟩

/-- The host is an alias of another one, whose address comes after that. -/
def aliasResponse : DnsResponse where
  id := 7
  flags := 0x8180
  questions := [⟨oneLetter, 1, 1⟩]
  answers := [⟨oneLetterAgain, 5, 1, 60, [1, 0x62, 0], by decide⟩,
    ⟨⟨[⟨ascii "b", by decide, by decide⟩], .root, by decide⟩, 1, 1, 60, [93, 184, 216, 34],
      by decide⟩]
  authorities := 0
  additionals := 0
  others := []
  isResponse := by decide
  whole := by decide
  noError := by decide
  asked := by decide
  questionCount := by decide
  answerCount := by decide

/-- The resolver is waiting for the response with the number 7. -/
def askingWorld : World Unit Unit :=
  { neighbourWorld with
    dns := { Dns.initial with active := true, pendingId := 7, pendingCallback := some () } }

theorem dns_response_reported_alias :
    handleDnsResponse idleCallbacks dnsPort askingWorld.dns.server aliasResponse.encode
        askingWorld = askingWorld.answered () 0x5DB8D822 true ∧
      (askingWorld.answered () 0x5DB8D822 true).dns.active = false ∧
      (askingWorld.answered () 0x5DB8D822 true).dns.answers = [((), 0x5DB8D822, true)] :=
  ⟨(dns_response_reported idleCallbacks aliasResponse rfl rfl rfl).1 0x5DB8D822 rfl, rfl, rfl⟩

end Charis.Net
