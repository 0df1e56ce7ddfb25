import MeowMeowOS.PacketBounds

/-! What the parser of DNS responses reads and what it finds. It stays in the packet
whatever this holds; of the shapes of a name it knows two, a third one misleads it. -/
namespace MeowMeowOS.DnsResponses
open ByteBuffer Network PacketBounds

/-! ## Every packet -/

section Within
variable {data : List UInt8} {payload len pos : Nat}

theorem name_within (inside : payload + len ≤ data.length) (pos : Nat) : NameWithin data payload len pos := by
  fun_induction nameEnd data payload len pos with
  | case1 pos small empty =>
    rw [NameWithin, if_pos small]
    exact ⟨by omega, Or.inl empty⟩
  | case2 pos small label ih =>
    rw [NameWithin, if_pos small]
    exact ⟨by omega, Or.inr ih⟩
  | case3 pos behind =>
    rw [NameWithin, if_neg behind]
    trivial

theorem questions_within (inside : payload + len ≤ data.length) (qdcount pos : Nat) :
    QuestionsWithin data payload len qdcount pos := by
  induction qdcount generalizing pos with
  | zero => trivial
  | succ qdcount ih => exact ⟨name_within inside pos, ih _⟩

theorem answers_within (inside : payload + len ≤ data.length) (ancount pos : Nat) :
    AnswersWithin data payload len ancount pos := by
  induction ancount generalizing pos with
  | zero => trivial
  | succ ancount ih =>
    intro small
    refine ⟨⟨by omega, Or.inr (name_within inside pos)⟩, fun fixed => ⟨by omega, ?_⟩⟩
    split
    · rename_i has
      have held := has.2.2.2
      omega
    · exact ih _

theorem dns_within (net : Net) (inside : payload + len ≤ data.length) : DnsWithin net data payload len := by
  intro header
  unfold dnsHeader at header
  exact ⟨by omega, fun _ => ⟨by omega, fun _ => ⟨questions_within inside _ _, answers_within inside _ _⟩⟩⟩

theorem nameEnd_le (data : List UInt8) (payload len pos : Nat) :
    nameEnd data payload len pos ≤ max pos (len + 255) := by
  fun_induction nameEnd data payload len pos with
  | case1 pos small empty => omega
  | case2 pos small label ih =>
    have byte := (labelAt data payload pos).toNat_lt
    omega
  | case3 pos behind => omega

/-- The positions of the question section fit into `uint32_t`. -/
theorem questionsEnd_small (small : len ≤ 65527) {qdcount : Nat} (count : qdcount < 2 ^ 16) :
    questionsEnd data payload len qdcount dnsHeader < 2 ^ 32 := by
  have bound : ∀ qdcount pos, questionsEnd data payload len qdcount pos ≤ max pos (len + 255) + 5 * qdcount := by
    intro qdcount
    induction qdcount with
    | zero => exact fun pos => Nat.le_max_left _ _
    | succ qdcount ih =>
      intro pos
      have first := nameEnd_le data payload len pos
      have rest := ih (nameEnd data payload len pos + 1 + 4)
      unfold questionsEnd
      omega
  have most := bound qdcount dnsHeader
  unfold dnsHeader at *
  omega

/-- A packet that is all of the memory there is can be handled: no read is at its length or
behind. -/
theorem dnsHandlePacket_within (net : Net) (packet : List UInt8) :
    ∃ after, dnsHandlePacket net packet 0 packet.length = some after := by
  have handled : Succeeds (fun _ : Net => True) (dnsHandlePacket net packet 0 packet.length >>= some) :=
    (succeeds_dnsHandlePacket fun _ => succeeds_some.mpr trivial).mpr (dns_within net (by omega))
  obtain ⟨after, same, -⟩ := handled
  exact ⟨after, by rw [← same]; exact (bind_pure _).symm⟩

end Within

/-! ## Responses -/

structure Label where
  bytes : List UInt8
  nonempty : 0 < bytes.length
  short : bytes.length ≤ 63

def Label.wire (label : Label) : List UInt8 := UInt8.ofNat label.bytes.length :: label.bytes

/-- A name ends with a zero byte or with a pointer to a name in front of it. -/
inductive Ending where
  | zero
  | pointer (high low : UInt8) (marked : high &&& 0xC0 = 0xC0)

def Ending.wire : Ending → List UInt8
  | .zero => [0]
  | .pointer high low _ => [high, low]

structure Name where
  labels : List Label
  ending : Ending

def Name.wire (name : Name) : List UInt8 := name.labels.flatMap Label.wire ++ name.ending.wire

/-- A 16-bit number, highest byte first. -/
def big (v : Nat) : List UInt8 := [UInt8.ofNat (v / 256), UInt8.ofNat v]

structure Question where
  name : Name
  type : Fin (2 ^ 16)
  cls : Fin (2 ^ 16)

def Question.wire (question : Question) : List UInt8 := question.name.wire ++ (big question.type ++ big question.cls)

structure Answer where
  name : Name
  type : Fin (2 ^ 16)
  cls : Fin (2 ^ 16)
  ttl : Vector UInt8 4
  data : List UInt8
  short : data.length < 2 ^ 16

def Answer.wire (answer : Answer) : List UInt8 :=
  answer.name.wire ++
    (big answer.type ++ (big answer.cls ++ (answer.ttl.toList ++ (big answer.data.length ++ answer.data))))

/-- Of type A, class IN and length 4. -/
def Answer.isAddress (answer : Answer) : Bool := answer.type = 1 ∧ answer.cls = 1 ∧ answer.data.length = 4

/-- `others` are the counts of the two sections behind the answers, and `rest` holds them. -/
structure Response where
  transaction : Fin (2 ^ 16)
  flags : Vector UInt8 2
  questions : List Question
  answers : List Answer
  others : Vector UInt8 4
  rest : List UInt8
  fewQuestions : questions.length < 2 ^ 16
  fewAnswers : answers.length < 2 ^ 16

def Response.wire (response : Response) : List UInt8 :=
  (big response.transaction ++
    (response.flags.toList ++ (big response.questions.length ++ (big response.answers.length ++
    response.others.toList)))) ++
    (response.questions.flatMap Question.wire ++ (response.answers.flatMap Answer.wire ++ response.rest))

def Response.address (response : Response) : Option (List UInt8) :=
  (response.answers.find? Answer.isAddress).map Answer.data

/-- What the handler is to make of a response. -/
def resolved (net : Net) : Option (List UInt8) → Net
  | none => net
  | some address => { net with dnsResolvedIp := address, dnsResolvedFlag := true }

def Resolves (response : Response) : Prop :=
  ∀ (net : Net) (front behind : List UInt8), net.dnsQueryId = response.transaction →
    dnsHandlePacket net (front ++ (response.wire ++ behind)) front.length response.wire.length =
      some (resolved net response.address)

/-! ## Names that the parser knows -/

def Ended (name : Name) : Prop := name.ending = .zero

/-- A pointer alone, or labels up to a zero byte. -/
def Known (name : Name) : Prop := name.labels = [] ∨ Ended name

/-- The names of the answers are known, up to the first address. -/
def KnownAnswers : List Answer → Prop
  | [] => True
  | answer :: rest => Known answer.name ∧ (answer.isAddress = false → KnownAnswers rest)

/-- A response without answers is left alone before a name is read. -/
structure Readable (response : Response) : Prop where
  questions : response.answers ≠ [] → ∀ question ∈ response.questions, Ended question.name
  answers : KnownAnswers response.answers

/-! ## Bytes at a place -/

/-- The bytes lie in the buffer from an offset on. -/
def Lies (data : List UInt8) (off : Nat) (bytes : List UInt8) : Prop := bytes <+: data.drop off

section Lies
variable {data bytes left right : List UInt8} {off v : Nat} {b : UInt8}

theorem lies_append : Lies data off (left ++ right) ↔ Lies data off left ∧ Lies data (off + left.length) right := by
  unfold Lies
  constructor
  · rintro ⟨rest, same⟩
    rw [List.append_assoc] at same
    refine ⟨⟨_, same⟩, rest, ?_⟩
    rw [← List.drop_drop, ← same, List.drop_left]
  · rintro ⟨⟨rest, same⟩, further⟩
    rw [← List.drop_drop, ← same, List.drop_left] at further
    rw [← same]
    exact List.prefix_append_right_inj left |>.mpr further

theorem lies_middle (front bytes behind : List UInt8) : Lies (front ++ (bytes ++ behind)) front.length bytes := by
  unfold Lies
  rw [List.drop_left]
  exact List.prefix_append bytes behind

theorem lies_readByte (lies : Lies data off (b :: bytes)) : readByte data off = some b := by
  obtain ⟨rest, same⟩ := lies
  have first : (data.drop off)[0]? = some b := by
    rw [← same]
    rfl
  rwa [List.getElem?_drop] at first

theorem lies_length (lies : Lies data off bytes) : bytes ≠ [] → off + bytes.length ≤ data.length := by
  intro some
  have length := lies.length_le
  have positive := List.length_pos_of_ne_nil some
  rw [List.length_drop] at length
  omega

theorem lies_readBytes (lies : Lies data off bytes) (some' : bytes ≠ []) :
    readBytes data off bytes.length = some bytes := by
  rw [readBytes_inside (lies_length lies some')]
  obtain ⟨rest, same⟩ := lies
  rw [← same, List.take_left]

theorem lies_big (lies : Lies data off (big v)) (small : v < 2 ^ 16) : readBe16 data off = some v := by
  have pair : Lies data off ([UInt8.ofNat (v / 256)] ++ [UInt8.ofNat v]) := lies
  obtain ⟨first, second⟩ := lies_append.mp pair
  have high := (readByte_found (lies_readByte first)).2
  have low := (readByte_found (lies_readByte second)).2
  rw [List.length_singleton] at low
  rw [readBe16_inside (lies_length lies (List.cons_ne_nil _ _)), be16, high, low, UInt8.toNat_ofNat',
    UInt8.toNat_ofNat']
  refine congrArg some ?_
  omega

end Lies

/-! ## The parser on a response -/

theorem label_byte (label : Label) : (UInt8.ofNat label.bytes.length).toNat = label.bytes.length := by
  have short := label.short
  rw [UInt8.toNat_ofNat']
  omega

theorem label_unmarked (label : Label) : UInt8.ofNat label.bytes.length &&& 0xC0 ≠ 0xC0 := by
  have all : ∀ n < 64, UInt8.ofNat n &&& 0xC0 ≠ 0xC0 := by decide +kernel
  exact all _ (Nat.lt_succ_of_le label.short)

section Parser
variable {data : List UInt8} {payload len pos : Nat} {name : Name}

theorem skipName_labels (labels : List Label) (lies : Lies data (payload + pos) (labels.flatMap Label.wire))
    (inside : pos + (labels.flatMap Label.wire).length ≤ len) :
    skipName data payload len pos = skipName data payload len (pos + (labels.flatMap Label.wire).length) := by
  induction labels generalizing pos with
  | nil => rfl
  | cons label rest ih =>
    rw [List.flatMap_cons] at lies inside ⊢
    obtain ⟨here, further⟩ := lies_append.mp lies
    have length : label.wire.length = label.bytes.length + 1 := rfl
    rw [List.length_append, length] at inside ⊢
    rw [length] at further
    have some : UInt8.ofNat label.bytes.length ≠ 0 := by
      intro zero
      have byte := label_byte label
      rw [zero] at byte
      exact absurd byte.symm (Nat.ne_of_gt label.nonempty)
    have step : skipName data payload len pos = skipName data payload len (pos + label.bytes.length + 1) := by
      rw [skipName, if_pos (by omega), lies_readByte here]
      dsimp only
      rw [if_neg some, label_byte]
    have place : payload + pos + (label.bytes.length + 1) = payload + (pos + label.bytes.length + 1) := by omega
    rw [place] at further
    rw [step, ih further (by omega)]
    congr 1
    omega

theorem skipName_ended (ended : Ended name) (lies : Lies data (payload + pos) name.wire)
    (inside : pos + name.wire.length ≤ len) :
    ∃ last, skipName data payload len pos = some last ∧ last + 1 = pos + name.wire.length := by
  unfold Name.wire at lies inside ⊢
  rw [show name.ending = .zero from ended, Ending.wire] at lies inside ⊢
  obtain ⟨labels, zero⟩ := lies_append.mp lies
  rw [List.length_append, List.length_singleton] at inside ⊢
  rw [Nat.add_assoc] at zero
  refine ⟨pos + (name.labels.flatMap Label.wire).length, ?_, rfl⟩
  rw [skipName_labels name.labels labels (by omega), skipName, if_pos (by omega), lies_readByte zero]
  dsimp only
  rw [if_pos rfl]

theorem skipQuestions_ended (questions : List Question) (ended : ∀ question ∈ questions, Ended question.name)
    (lies : Lies data (payload + pos) (questions.flatMap Question.wire))
    (inside : pos + (questions.flatMap Question.wire).length ≤ len) :
    skipQuestions data payload len questions.length pos = some (pos + (questions.flatMap Question.wire).length) := by
  induction questions generalizing pos with
  | nil => rfl
  | cons question rest ih =>
    rw [List.flatMap_cons] at lies inside ⊢
    obtain ⟨here, further⟩ := lies_append.mp lies
    have length : question.wire.length = question.name.wire.length + 4 := by
      unfold Question.wire
      rw [List.length_append]
      rfl
    rw [List.length_append] at inside ⊢
    unfold Question.wire at here
    obtain ⟨nameLies, -⟩ := lies_append.mp here
    have fits : pos + question.name.wire.length ≤ len := by omega
    obtain ⟨last, skipped, behind⟩ := skipName_ended (ended question List.mem_cons_self) nameLies fits
    rw [List.length_cons, skipQuestions, skipped, Option.bind_eq_bind, Option.bind_some,
      show last + 1 + 4 = pos + question.wire.length by omega,
      ih (fun other member => ended other (List.mem_cons_of_mem _ member)) (by rwa [← Nat.add_assoc])
        (by omega), Nat.add_assoc]

/-- An ended name does not begin like a pointer. -/
theorem ended_first (ended : Ended name) : ∃ b rest, name.wire = b :: rest ∧ b &&& 0xC0 ≠ 0xC0 := by
  unfold Name.wire
  rw [show name.ending = .zero from ended, Ending.wire]
  cases name.labels with
  | nil => exact ⟨0, [], rfl, by decide⟩
  | cons label rest => exact ⟨_, _, rfl, label_unmarked label⟩

theorem skipOwner_known (known : Known name) (lies : Lies data (payload + pos) name.wire)
    (inside : pos + name.wire.length ≤ len) :
    skipOwner data payload len pos = some (pos + name.wire.length) := by
  unfold skipOwner
  by_cases ended : Ended name
  · obtain ⟨b, rest, first, unmarked⟩ := ended_first ended
    obtain ⟨last, skipped, behind⟩ := skipName_ended ended lies inside
    rw [lies_readByte (first ▸ lies), Option.bind_eq_bind, Option.bind_some, if_neg unmarked, skipped,
      Option.bind_eq_bind,
      Option.bind_some, behind]
  · obtain ⟨labels, ending⟩ := name
    obtain rfl : labels = [] := known.resolve_right ended
    cases ending with
    | zero => exact absurd rfl ended
    | pointer high low marked =>
      have first : Lies data (payload + pos) (high :: [low]) := lies
      rw [lies_readByte first, Option.bind_eq_bind, Option.bind_some, if_pos marked]
      rfl

theorem answer_fields {off : Nat} (answer : Answer) (lies : Lies data off
    (big answer.type ++ (big answer.cls ++ (answer.ttl.toList ++ (big answer.data.length ++ answer.data))))) :
    readBe16 data off = some answer.type.val ∧ readBe16 data (off + 2) = some answer.cls.val ∧
      readBe16 data (off + 8) = some answer.data.length ∧ Lies data (off + 10) answer.data := by
  have two : ∀ v, (big v).length = 2 := fun _ => rfl
  have four : answer.ttl.toList.length = 4 := answer.ttl.length_toList
  obtain ⟨type, lies⟩ := lies_append.mp lies
  obtain ⟨cls, lies⟩ := lies_append.mp lies
  obtain ⟨-, lies⟩ := lies_append.mp lies
  obtain ⟨length, lies⟩ := lies_append.mp lies
  rw [two] at cls
  rw [two, two, four] at length
  rw [two, two, four, two] at lies
  exact ⟨lies_big type answer.type.isLt, lies_big cls answer.cls.isLt, lies_big length answer.short, lies⟩

theorem findAddress_known (answers : List Answer) (known : KnownAnswers answers)
    (lies : Lies data (payload + pos) (answers.flatMap Answer.wire))
    (inside : pos + (answers.flatMap Answer.wire).length ≤ len) :
    findAddress data payload len answers.length pos = some ((answers.find? Answer.isAddress).map Answer.data) := by
  induction answers generalizing pos with
  | nil => rfl
  | cons answer rest ih =>
    rw [List.flatMap_cons] at lies inside
    obtain ⟨here, further⟩ := lies_append.mp lies
    have length : answer.wire.length = answer.name.wire.length + 10 + answer.data.length := by
      unfold Answer.wire
      simp only [List.length_append, Vector.length_toList, big, List.length_cons, List.length_nil]
      omega
    rw [List.length_append] at inside
    rw [length] at further inside
    unfold Answer.wire at here
    obtain ⟨nameLies, fields⟩ := lies_append.mp here
    have fits : pos + answer.name.wire.length ≤ len := by omega
    have skipped := skipOwner_known known.1 nameLies fits
    rw [List.length_cons, findAddress, if_pos (by omega), skipped, Option.bind_eq_bind, Option.bind_some]
    have place : payload + pos + (answer.name.wire.length + 10 + answer.data.length) =
        payload + (pos + answer.name.wire.length + 10 + answer.data.length) := by omega
    rw [place] at further
    rw [Nat.add_assoc] at fields
    have room : pos + answer.name.wire.length + 10 + answer.data.length +
        (rest.flatMap Answer.wire).length ≤ len := by omega
    generalize pos + answer.name.wire.length = start at *
    obtain ⟨type, cls, rdlength, rdata⟩ := answer_fields answer fields
    rw [if_neg (by omega), type, Option.bind_some, cls, Option.bind_some, rdlength, Option.bind_some]
    cases match' : answer.isAddress with
    | true =>
      obtain ⟨isType, isCls, isLength⟩ := of_decide_eq_true match'
      rw [isLength] at room
      have whole := lies_readBytes rdata (List.ne_nil_of_length_pos (by omega))
      rw [isLength] at whole
      have taken : (answer.type : Nat) = 1 ∧ (answer.cls : Nat) = 1 ∧ answer.data.length = 4 ∧
        start + 10 + 4 ≤ len :=
        ⟨by rw [isType]; rfl, by rw [isCls]; rfl, isLength, by omega⟩
      rw [if_pos taken, whole, List.find?_cons_of_pos match']
      rfl
    | false =>
      have other := of_decide_eq_false match'
      have passed : ¬ ((answer.type : Nat) = 1 ∧ (answer.cls : Nat) = 1 ∧ answer.data.length = 4 ∧
          start + 10 + 4 ≤ len) :=
        fun taken => other ⟨Fin.ext taken.1, Fin.ext taken.2.1, taken.2.2.1⟩
      rw [if_neg passed, List.find?_cons_of_neg (by rw [match']; nofun), ih (known.2 match') further room]

theorem wire_header (response : Response) :
    ∃ sections, response.wire = big response.transaction ++ (response.flags.toList ++
    (big response.questions.length ++ (big response.answers.length ++ (response.others.toList ++ sections)))) ∧
      sections = response.questions.flatMap Question.wire ++
      (response.answers.flatMap Answer.wire ++ response.rest) := by
  refine ⟨_, ?_, rfl⟩
  unfold Response.wire
  simp only [List.append_assoc]

/-- The packet is the parser's to read, from its counts to what the search finds. -/
theorem handles_response (response : Response) (net : Net) (expected : net.dnsQueryId = response.transaction)
    (lies : Lies data payload response.wire) (length : response.wire.length = len) :
    dnsHandlePacket net data payload len = if response.answers.length = 0 then some net else
      (skipQuestions data payload len response.questions.length 12).bind fun pos =>
        (findAddress data payload len response.answers.length pos).bind fun found => some (resolved net found) := by
  have two : ∀ v, (big v).length = 2 := fun _ => rfl
  obtain ⟨sections, wire, -⟩ := wire_header response
  have header : ¬ len < dnsHeader := by
    rw [← length, wire]
    unfold dnsHeader
    simp only [List.length_append, two, Vector.length_toList]
    omega
  rw [wire] at lies
  obtain ⟨transaction, lies⟩ := lies_append.mp lies
  obtain ⟨-, lies⟩ := lies_append.mp lies
  obtain ⟨questions, lies⟩ := lies_append.mp lies
  obtain ⟨answers, -⟩ := lies_append.mp lies
  rw [two, Vector.length_toList] at questions
  rw [two, Vector.length_toList, two] at answers
  unfold dnsHandlePacket
  rw [if_neg header, lies_big transaction response.transaction.isLt, Option.bind_eq_bind, Option.bind_some,
    if_neg (not_not.mpr expected.symm),
    lies_big answers response.fewAnswers, Option.bind_some, lies_big questions response.fewQuestions]
  split
  · rfl
  · rw [Option.bind_some]
    unfold dnsHeader
    refine congrArg _ (funext fun pos => congrArg _ (funext fun found => ?_))
    cases found with
    | none => rfl
    | some address => rfl

theorem lies_sections (response : Response) (lies : Lies data payload response.wire) :
    Lies data (payload + 12) (response.questions.flatMap Question.wire ++
    (response.answers.flatMap Answer.wire ++ response.rest)) := by
  have two : ∀ v, (big v).length = 2 := fun _ => rfl
  unfold Response.wire at lies
  have sections := (lies_append.mp lies).2
  simp only [List.length_append, two, Vector.length_toList] at sections
  exact sections

theorem wire_length (response : Response) : response.wire.length = 12 +
    ((response.questions.flatMap Question.wire).length + ((response.answers.flatMap Answer.wire).length +
    response.rest.length)) := by
  unfold Response.wire
  simp only [List.length_append, big, List.length_cons, List.length_nil, Vector.length_toList]

theorem resolves_readable (response : Response) (readable : Readable response) : Resolves response := by
  intro net front behind expected
  have lies := lies_middle front response.wire behind
  rw [handles_response response net expected lies rfl]
  generalize front ++ (response.wire ++ behind) = data at lies
  obtain ⟨questions, further⟩ := lies_append.mp (lies_sections response lies)
  obtain ⟨answers, -⟩ := lies_append.mp further
  have length := wire_length response
  by_cases none : response.answers = []
  · unfold Response.address
    rw [none]
    rfl
  · rw [if_neg (fun empty => none (List.length_eq_zero_iff.mp empty))]
    rw [Nat.add_assoc] at answers
    have fits : 12 + (response.questions.flatMap Question.wire).length ≤ response.wire.length := by omega
    have room : 12 + (response.questions.flatMap Question.wire).length + (response.answers.flatMap
      Answer.wire).length ≤
        response.wire.length := by omega
    rw [skipQuestions_ended response.questions (readable.questions none) questions fits, Option.bind_some,
      findAddress_known response.answers readable.answers answers room]
    rfl

/-! ## Names that mislead the parser -/

theorem marked_high {high : UInt8} (marked : high &&& 0xC0 = 0xC0) : 192 ≤ high.toNat := by
  have all : ∀ n < 256, UInt8.ofNat n &&& 0xC0 = 0xC0 → 192 ≤ n := by decide +kernel
  refine all high.toNat high.toNat_lt ?_
  rw [UInt8.ofNat_toNat]
  exact marked

/-- The first byte of a pointer is taken for the length of a label. -/
theorem skipName_pointer (linked : ¬ Ended name) (lies : Lies data (payload + pos) name.wire)
    (inside : pos + name.wire.length ≤ len)
    (near : len ≤ pos + name.wire.length + 190) :
    ∃ stop, skipName data payload len pos = some stop ∧ len ≤ stop := by
  obtain ⟨labels, ending⟩ := name
  cases ending with
  | zero => exact absurd rfl linked
  | pointer high low marked =>
    obtain ⟨before, pointer⟩ := lies_append.mp lies
    have length : (Name.mk labels (.pointer high low marked)).wire.length =
        (labels.flatMap Label.wire).length + 2 := List.length_append
    rw [length] at inside near
    rw [Nat.add_assoc] at pointer
    have far := marked_high marked
    have some : high ≠ 0 := by
      rintro rfl
      cases far
    have first : Lies data (payload + (pos + (labels.flatMap Label.wire).length)) (high :: [low]) := pointer
    refine ⟨pos + (labels.flatMap Label.wire).length + high.toNat + 1, ?_, by omega⟩
    rw [skipName_labels labels before (by omega), skipName, if_pos (by omega), lies_readByte first]
    dsimp only
    rw [if_neg some, skipName, if_neg (by omega)]

theorem findAddress_behind (ancount : Nat) (behind : len ≤ pos) :
    findAddress data payload len ancount pos = some none := by
  cases ancount with
  | zero => rfl
  | succ ancount => rw [findAddress, if_neg (by omega)]

theorem findAddress_misled (ancount : Nat) (unknown : ¬ Known name) (lies : Lies data (payload + pos) name.wire)
    (inside : pos + name.wire.length ≤ len) (near : len ≤ pos + name.wire.length + 190) :
    findAddress data payload len (ancount + 1) pos = some none := by
  obtain ⟨labelled, linked⟩ := not_or.mp unknown
  obtain ⟨stop, skipped, far⟩ := skipName_pointer linked lies inside near
  obtain ⟨label, rest, labels⟩ := List.exists_cons_of_ne_nil labelled
  have wire : name.wire = label.wire ++ (rest.flatMap Label.wire ++ name.ending.wire) := by
    unfold Name.wire
    rw [labels, List.flatMap_cons, List.append_assoc]
  have positive : 0 < name.wire.length := by
    rw [wire]
    exact Nat.succ_pos _
  have first : readByte data (payload + pos) = some (UInt8.ofNat label.bytes.length) := by
    rw [wire] at lies
    exact lies_readByte (lies_append.mp lies).1
  have owner : skipOwner data payload len pos = some (stop + 1) := by
    rw [skipOwner, first, Option.bind_eq_bind, Option.bind_some, if_neg (label_unmarked label), skipped]
    rfl
  rw [findAddress, if_pos (by omega), owner, Option.bind_eq_bind, Option.bind_some, if_pos (by omega)]

end Parser

/-- A net that waits for the response to a query. -/
def waitingFor (transaction : Nat) : Net :=
  ⟨Vector.replicate 6 0x52, [], false, false, false, [], transaction, 53123⟩

/-- A response has an address, and the search finds none. -/
theorem missed {response : Response} {address : List UInt8} {pos : Nat} (some' : response.answers.length ≠ 0)
    (has : response.address = some address)
    (skipped : skipQuestions response.wire 0 response.wire.length response.questions.length 12 = some pos)
    (nothing : findAddress response.wire 0 response.wire.length response.answers.length pos = some none) :
    ¬ Resolves response := by
  intro resolves
  have handled := resolves (waitingFor response.transaction) [] [] rfl
  rw [List.append_nil, List.nil_append, List.length_nil] at handled
  have lies : Lies response.wire 0 response.wire := List.prefix_rfl
  rw [handles_response response (waitingFor response.transaction) rfl lies rfl, if_neg some', skipped,
    Option.bind_some, nothing,
    Option.bind_some, has] at handled
  exact absurd (congrArg Net.dnsResolvedFlag (Option.some.inj handled)) nofun

/-- An answer that is an address. -/
def addressOf (name : Name) : Answer := ⟨name, 1, 1, Vector.replicate 4 0, [1, 2, 3, 4], by decide⟩

/-- A response with one answer, to one question at most. -/
def oneAnswer (question : Option Question) (answer : Answer) : Response where
  transaction := 0x4D4F
  flags := Vector.replicate 2 0
  questions := question.toList
  answers := [answer]
  others := Vector.replicate 4 0
  rest := []
  fewQuestions := by
    cases question with
    | none => decide
    | some question => exact Nat.one_lt_two_pow (by decide)
  fewAnswers := Nat.one_lt_two_pow (by decide)

theorem addressOf_length (name : Name) : (addressOf name).wire.length = name.wire.length + 14 := by
  unfold Answer.wire addressOf
  simp only [List.length_append, big, List.length_cons, List.length_nil, Vector.length_toList]

theorem oneAnswer_length (question : Option Question) (answer : Answer) : (oneAnswer question answer).wire.length =
    12 + ((question.toList.flatMap Question.wire).length + answer.wire.length) := by
  rw [wire_length]
  unfold oneAnswer
  rw [List.flatMap_singleton]
  rfl

theorem lies_oneAnswer (question : Option Question) (answer : Answer) :
    Lies (oneAnswer question answer).wire (0 + 12) (question.toList.flatMap Question.wire ++ (answer.wire ++ [])) := by
  have whole : Lies (oneAnswer question answer).wire 0 (oneAnswer question answer).wire := List.prefix_rfl
  have sections := lies_sections _ whole
  unfold oneAnswer at sections ⊢
  rw [List.flatMap_singleton] at sections
  exact sections

/-- Labels in front of a pointer, in an answer. -/
theorem missed_answer (name : Name) (unknown : ¬ Known name) : ¬ Resolves (oneAnswer none (addressOf name)) := by
  have length := oneAnswer_length none (addressOf name)
  rw [addressOf_length] at length
  have lies := lies_oneAnswer none (addressOf name)
  change Lies _ _ ((name.wire ++ _) ++ []) at lies
  rw [List.append_assoc] at lies
  have empty : ((none : Option Question).toList.flatMap Question.wire).length = 0 := rfl
  refine missed (Nat.succ_ne_zero 0)
    rfl rfl (findAddress_misled 0 unknown (lies_append.mp lies).1 (by omega) (by omega))

/-- A pointer in a question. -/
theorem missed_question (name : Name) (linked : ¬ Ended name) :
    ¬ Resolves (oneAnswer (some ⟨name, 1, 1⟩) (addressOf ⟨[], .zero⟩)) := by
  have length := oneAnswer_length (some ⟨name, 1, 1⟩) (addressOf ⟨[], .zero⟩)
  have lies := lies_oneAnswer (some ⟨name, 1, 1⟩) (addressOf ⟨[], .zero⟩)
  change Lies _ _ (((name.wire ++ (big 1 ++ big 1)) ++ []) ++ _) at lies
  rw [List.append_assoc, List.append_assoc] at lies
  have question : ((some ⟨name, 1, 1⟩ : Option Question).toList.flatMap Question.wire).length =
      name.wire.length + 4 := by
    rw [Option.toList_some, List.flatMap_singleton, Question.wire, List.length_append]
    rfl
  have answer : (addressOf ⟨[], .zero⟩).wire.length = 15 := rfl
  have fits : 12 + name.wire.length ≤ (oneAnswer (some ⟨name, 1, 1⟩)
    (addressOf ⟨[], .zero⟩)).wire.length := by omega
  obtain ⟨stop, skipped, far⟩ := skipName_pointer linked (lies_append.mp lies).1 fits (by omega)
  have questions : skipQuestions (oneAnswer (some ⟨name, 1, 1⟩) (addressOf ⟨[], .zero⟩)).wire 0
      (oneAnswer (some ⟨name, 1, 1⟩) (addressOf ⟨[], .zero⟩)).wire.length 1 12 = some (stop + 1 + 4) := by
    rw [skipQuestions, skipped]
    rfl
  exact missed (Nat.succ_ne_zero 0) rfl questions (findAddress_behind 1 (by omega))

/-- The parser finds the address in a response whose names it knows, and a name of any other
form can make it miss one. -/
theorem finds_address (response : Response) (name : Name) : (Readable response → Resolves response) ∧
    (¬ Ended name → ∃ other, (∃ question ∈ other.questions, question.name = name) ∧ ¬ Resolves other) ∧
    (¬ Known name → ∃ other, (∃ answer ∈ other.answers, answer.name = name) ∧ ¬ Resolves other) := by
  refine ⟨resolves_readable response, fun linked => ?_, fun unknown => ?_⟩
  · exact ⟨_, ⟨_, List.mem_cons_self, rfl⟩, missed_question name linked⟩
  · exact ⟨_, ⟨_, List.mem_cons_self, rfl⟩, missed_answer name unknown⟩

/-- The name `w`, ended by a zero byte. -/
def endedName : Name := ⟨[⟨[0x77], by decide, by decide⟩], .zero⟩

theorem finds_address_pointer :
    Resolves (oneAnswer (some ⟨endedName, 1, 1⟩) (addressOf ⟨[], .pointer 0xC0 0x0C (by decide)⟩)) := by
  refine (finds_address _ endedName).1 ⟨fun _ question asked => ?_, Or.inl rfl, fun _ => trivial⟩
  rw [List.mem_singleton.mp asked]
  rfl

/-- The answer's name is `w` in front of a pointer to the start of the questions. -/
theorem linked_label_misses : ¬ ∀ response, Resolves response := by
  intro all
  have mixed : ¬ Known ⟨[⟨[0x77], by decide, by decide⟩], .pointer 0xC0 0x0C (by decide)⟩ := by
    rintro (none | ended)
    · cases none
    · cases ended
  exact missed_answer _ mixed (all _)

end MeowMeowOS.DnsResponses
