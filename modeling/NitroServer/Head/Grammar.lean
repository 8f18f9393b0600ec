/-
The grammar of request heads, and what `parseRequestHead` takes beyond it.

The grammar asks for a request line in visible ASCII with a target in origin, asterisk or
absolute form, and for field lines without a control byte other than HTAB, DEL among them,
whose trimmed values are UTF-8. The parser tests field lines for bytes below 0x20 only, its
UTF-8 check lets numbers beyond the code space in (`Ws.CodeSpace`), and it takes a bare
`https://`.

* `legal_iff` — a head of the grammar is one the parser takes that slips in none of these
  ways.
* `parseRequestHead_exact` — the parser decides the grammar exactly on the other heads.
* `serialize_parses` — a head that is taken, serialized, gives the same result again.
-/

import NitroServer.Head.Target
import NitroServer.Ws.CodeSpace
import NitroServer.Router.Trie

namespace NitroServer.Head

open NitroServer.Engine NitroServer.Lib NitroServer.Chunked

/-! ### The grammar -/

/-- A control byte. -/
def control (b : UInt8) : Prop := b < 0x20 ∨ b = 0x7f

instance (b : UInt8) : Decidable (control b) := inferInstanceAs (Decidable (_ ∨ _))

/-- A field line of the grammar. -/
structure FieldLine.Legal (l : FieldLine) : Prop where
  named : l.name ≠ []
  ascii : ∀ b ∈ l.name, b < 0x80
  noColon : 58 ∉ l.name
  first : ∀ b, l.name.head? = some b → isBlank b = false
  last : ∀ b, l.name.getLast? = some b → isBlank b = false
  clean : ∀ b ∈ l.text, control b → b = 9
  utf8 : Ws.Utf8 (trim l.value)

/-- A head of the grammar. -/
structure Shape.Legal (s : Shape) : Prop where
  framed : Framed s.method s.target s.version
  target : TargetForm s.target
  lines : ∀ l ∈ s.lines, l.Legal

/-- The bytes are a head of the grammar. -/
def Grammatical (head : Bytes) : Prop := ∃ s : Shape, s.Legal ∧ head = s.text

/-- DEL in the line, or a number beyond the code space in its value. -/
def FieldLine.Slips (l : FieldLine) : Prop := 0x7f ∈ l.text ∨ Ws.Strays (trim l.value)

/-- A bare `https://`, or a line that slips. -/
def Shape.Slips (s : Shape) : Prop := s.target = ascii "https://" ∨ ∃ l ∈ s.lines, l.Slips

/-- The bytes are in the grammar but for such a slip. -/
def Slips (head : Bytes) : Prop := ∃ s : Shape, s.Taken ∧ s.Slips ∧ head = s.text

theorem FieldLine.legal_iff (l : FieldLine) : l.Legal ↔ l.Taken ∧ ¬ l.Slips := by
  constructor
  · intro legal
    refine ⟨⟨legal.named, legal.ascii, legal.noColon, legal.first, legal.last,
      fun b mem low => legal.clean b mem (.inl low), legal.utf8.valid⟩, ?_⟩
    rintro (del | strays)
    · exact absurd (legal.clean _ del (.inr rfl)) (by decide)
    · exact (Ws.utf8_of_valid legal.utf8.valid).mp legal.utf8 strays
  · rintro ⟨taken, none_⟩
    refine ⟨taken.named, taken.ascii, taken.noColon, taken.first, taken.last, ?_, ?_⟩
    · rintro b mem (low | rfl)
      · exact taken.clean b mem low
      · exact absurd (.inl mem) none_
    · exact (Ws.utf8_of_valid taken.utf8).mpr fun strays => none_ (.inr strays)

theorem targetForm_https : ¬ TargetForm (ascii "https://") := by
  intro form
  generalize same : ascii "https://" = target at form
  rw [https_bytes] at same
  cases form with
  | origin rest => cases same
  | asterisk => cases same
  | @http rest full =>
      rw [http_bytes] at same
      cases same
  | @https rest full =>
      rw [https_bytes] at same
      have size := congrArg List.length same
      have pos := List.length_pos_of_ne_nil full
      simp only [List.length_append, List.length_cons, List.length_nil] at size
      omega

theorem Shape.legal_iff (s : Shape) : s.Legal ↔ s.Taken ∧ ¬ s.Slips := by
  constructor
  · intro legal
    refine ⟨⟨legal.framed, reduceTarget_isSome.mpr (.inl legal.target), fun l mem =>
      (l.legal_iff.mp (legal.lines l mem)).1⟩, ?_⟩
    rintro (bare | ⟨l, mem, slips⟩)
    · exact targetForm_https (bare ▸ legal.target)
    · exact (l.legal_iff.mp (legal.lines l mem)).2 slips
  · rintro ⟨taken, none_⟩
    refine ⟨taken.framed, ?_, fun l mem => l.legal_iff.mpr ⟨taken.lines l mem, fun slips =>
      none_ (.inr ⟨l, mem, slips⟩)⟩⟩
    exact (reduceTarget_isSome.mp taken.target).resolve_right fun bare => none_ (.inl bare)

/-! ### A head has one shape -/

theorem cut_inj {c : UInt8} {a a' b b' : Bytes} (absent : c ∉ a) (absent' : c ∉ a')
    (same : a ++ c :: b = a' ++ c :: b') : a = a' ∧ b = b' := by
  have at_ := findIdx_cut (b := b) absent
  rw [same, findIdx_cut absent'] at at_
  obtain ⟨front, back⟩ := List.append_inj same (Option.some.inj at_).symm
  exact ⟨front, (List.cons_eq_cons.mp back).2⟩

theorem line_inj {a a' b b' : Bytes} (line : NoCrlf a) (line' : NoCrlf a')
    (more : b = [] ∨ crlf <+: b) (more' : b' = [] ∨ crlf <+: b') (same : a ++ b = a' ++ b') :
    a = a' ∧ b = b' := by
  have ends : ∀ {a b : Bytes}, NoCrlf a → (b = [] ∨ crlf <+: b) →
      firstLine (a ++ b) = (a, b) := by
    intro a b line more
    rcases more with rfl | ⟨rest, rfl⟩
    · rw [List.append_nil, firstLine, line]
    · rw [firstLine, ← List.append_assoc, findSub_line line]
      simp only [List.append_assoc]
      rw [List.take_left' rfl, List.drop_left' rfl]
  have pair := congrArg firstLine same
  rw [ends line more, ends line' more'] at pair
  exact ⟨congrArg Prod.fst pair, congrArg Prod.snd pair⟩

theorem joined_inj {ls ms : List FieldLine} (left : ∀ l ∈ ls, l.Taken) (right : ∀ l ∈ ms, l.Taken)
    (same : joined ls = joined ms) : ls = ms := by
  induction ls generalizing ms with
  | nil =>
      cases ms with
      | nil => rfl
      | cons m ms => cases same
  | cons l ls ih =>
      cases ms with
      | nil => cases same
      | cons m ms =>
          have split : ∀ (l : FieldLine) (ls : List FieldLine), joined (l :: ls) =
              crlf ++ (l.text ++ joined ls) := fun l ls => List.append_assoc ..
          rw [split, split] at same
          have here := left l List.mem_cons_self
          have there := right m List.mem_cons_self
          obtain ⟨text, rest⟩ := line_inj here.noCrlf there.noCrlf (joined_start ls)
            (joined_start ms) (List.append_cancel_left same)
          obtain ⟨name, value⟩ := cut_inj here.noColon there.noColon text
          have first : l = m := by
            cases l
            cases m
            rw [FieldLine.mk.injEq]
            exact ⟨name, value⟩
          rw [first, ih (fun k mem => left k (List.mem_cons_of_mem l mem))
            (fun k mem => right k (List.mem_cons_of_mem m mem)) rest]

/-- A head has one shape at most. -/
theorem shape_inj {s t : Shape} (left : s.Taken) (right : t.Taken) (same : s.text = t.text) :
    s = t := by
  obtain ⟨line, rest⟩ := line_inj left.framed.noCrlf right.framed.noCrlf (joined_start s.lines)
    (joined_start t.lines) same
  obtain ⟨method, behind⟩ := cut_inj (visible_noSpace left.framed.method_visible)
    (visible_noSpace right.framed.method_visible) line
  obtain ⟨target, version⟩ := cut_inj (visible_noSpace left.framed.target_visible)
    (visible_noSpace right.framed.target_visible) behind
  have lines := joined_inj left.lines right.lines rest
  cases s
  cases t
  rw [Shape.mk.injEq]
  exact ⟨method, target, version, lines⟩

/-- A head that slips is not in the grammar. -/
theorem Slips.not_grammatical {head : Bytes} (slips : Slips head) : ¬ Grammatical head := by
  rintro ⟨t, legal, same⟩
  obtain ⟨s, taken, bad, rfl⟩ := slips
  obtain ⟨taken', none_⟩ := t.legal_iff.mp legal
  exact none_ (shape_inj taken taken' same ▸ bad)

/-! ### What the parser takes -/

/-- Before the first empty line there is none. -/
theorem blankless_head {raw : Bytes} {headEnd : Nat} (ends : findSub crlf2 raw = some headEnd) :
    Blankless (raw.take headEnd) := by
  obtain ⟨⟨rest, here⟩, before⟩ := findSub_spec ends
  have whole : raw.take headEnd ++ (crlf2 ++ rest) = raw := by
    rw [here, List.take_append_drop]
  intro i lt start
  have small : i < headEnd := lt_of_lt_of_le lt (List.length_take_le headEnd raw)
  refine before i small ?_
  rw [← whole, ← List.append_assoc, List.drop_append_of_le_length]
  · exact start.trans (List.prefix_append _ _)
  · rw [List.length_append]
    omega

variable {raw : Bytes} {headEnd : Nat}

/-- The parser takes the heads that have a shape it takes. -/
theorem parseRequestHead_taken (ends : findSub crlf2 raw = some headEnd) :
    (parseRequestHead raw headEnd).ok = true ↔ ∃ s : Shape, s.Taken ∧ raw.take headEnd = s.text := by
  constructor
  · exact parseHead_ok (blankless_head ends)
  · rintro ⟨s, taken, text⟩
    rw [parseRequestHead, text, parseHead_taken taken]
    rfl

/-- The parser decides the grammar on the heads that do not slip. -/
theorem grammar_iff (ends : findSub crlf2 raw = some headEnd) :
    ((parseRequestHead raw headEnd).ok = true ↔ Grammatical (raw.take headEnd)) ↔
      ¬ Slips (raw.take headEnd) := by
  rw [parseRequestHead_taken ends]
  constructor
  · intro right slips
    obtain ⟨s, taken, -, text⟩ := id slips
    exact slips.not_grammatical (right.mp ⟨s, taken, text⟩)
  · intro none_
    constructor
    · rintro ⟨s, taken, text⟩
      exact ⟨s, s.legal_iff.mpr ⟨taken, fun bad => none_ ⟨s, taken, bad, text⟩⟩, text⟩
    · rintro ⟨s, legal, text⟩
      exact ⟨s, (s.legal_iff.mp legal).1, text⟩

/-! ### Serializing what was taken -/

theorem trim_eq (s : Bytes) : trim s = (s.dropWhile isBlank).rdropWhile isBlank := rfl

/-- The blank behind the colon goes. -/
theorem trim_space (s : Bytes) : trim (32 :: s) = trim s := rfl

theorem trim_trim (s : Bytes) : trim (trim s) = trim s := by
  have front : (trim s).dropWhile isBlank = trim s := by
    have kept : (s.dropWhile isBlank).dropWhile isBlank = s.dropWhile isBlank :=
      List.dropWhile_idempotent ..
    rw [List.dropWhile_eq_self_iff] at kept ⊢
    intro pos
    have inside : trim s <+: s.dropWhile isBlank := List.rdropWhile_prefix ..
    have longer := lt_of_lt_of_le pos inside.length_le
    rw [inside.getElem pos]
    exact kept longer
  rw [trim_eq (trim s), front, trim_eq, List.rdropWhile_idempotent]

/-- The token of the method: `methodToken`, or the custom one. -/
def methodText (p : ParsedHead) : Bytes :=
  if p.method = .custom then p.customMethod else Routing.methodToken p.method

/-- A parsed head as a head again, without the empty line. -/
def serialize (p : ParsedHead) : Bytes :=
  requestLine (methodText p) p.target p.version ++
    p.headers.flatMap fun h => crlf ++ (h.name ++ 58 :: 32 :: h.value)

/-- The method token is read back. -/
theorem parseMethod_token (token : Bytes) :
    (parseMethod token).1 = .custom ∧ (parseMethod token).2 = token ∨
      (parseMethod token).1 ≠ .custom ∧ Routing.methodToken (parseMethod token).1 = token := by
  unfold parseMethod
  repeat' split
  all_goals first | exact .inr ⟨nofun, Eq.symm ‹_›⟩ | exact .inl ⟨rfl, rfl⟩

theorem methodText_parsed (s : Shape) : methodText s.parsed = s.method := by
  rw [methodText, Shape.parsed]
  rcases parseMethod_token s.method with ⟨custom, token⟩ | ⟨known, token⟩
  · simp only [custom, if_true, token]
  · simp only [if_neg known, token]

/-- A field line as `serialize` writes it. -/
def FieldLine.rewritten (l : FieldLine) : FieldLine := ⟨l.name, 32 :: trim l.value⟩

theorem FieldLine.rewritten_header (l : FieldLine) : l.rewritten.header = l.header := by
  rw [header, rewritten, trim_space, trim_trim, header]

theorem mem_of_mem_trim {b : UInt8} {s : Bytes} (mem : b ∈ trim s) : b ∈ s :=
  (List.dropWhile_sublist _).mem ((List.rdropWhile_prefix ..).subset mem)

theorem FieldLine.Taken.rewritten {l : FieldLine} (taken : l.Taken) : l.rewritten.Taken where
  named := taken.named
  ascii := taken.ascii
  noColon := taken.noColon
  first := taken.first
  last := taken.last
  clean b mem low := by
    simp only [FieldLine.text, FieldLine.rewritten, List.mem_append, List.mem_cons] at mem
    have inside : ∀ b, b ∈ l.name ∨ b ∈ l.value → b ∈ l.text := by
      intro b mem
      rw [FieldLine.text, List.mem_append, List.mem_cons]
      exact mem.imp_right .inr
    rcases mem with mem | rfl | rfl | mem
    · exact taken.clean b (inside b (.inl mem)) low
    · exact absurd low (by decide)
    · exact absurd low (by decide)
    · exact taken.clean b (inside b (.inr (mem_of_mem_trim mem))) low
  utf8 := by
    rw [FieldLine.rewritten, trim_space, trim_trim]
    exact taken.utf8

/-- A head as `serialize` writes it. -/
def Shape.rewritten (s : Shape) : Shape :=
  ⟨s.method, s.parsed.target, s.version, s.lines.map FieldLine.rewritten⟩

theorem serialize_parsed (s : Shape) : serialize s.parsed = s.rewritten.text := by
  rw [serialize, methodText_parsed, Shape.text, joined, Shape.rewritten, List.flatMap_map,
    Shape.parsed, List.flatMap_map]
  rfl

theorem Shape.Taken.rewritten {s : Shape} (taken : s.Taken) : s.rewritten.Taken := by
  obtain ⟨reduced, target⟩ := Option.isSome_iff_exists.mp taken.target
  have same : s.parsed.target = reduced := by
    rw [Shape.parsed, target, Option.getD_some]
  obtain ⟨form, inside⟩ := reduced_form target
  refine ⟨⟨taken.framed.method_ne, taken.framed.method_visible, ?_, ?_, taken.framed.version⟩, ?_, ?_⟩
  · rw [Shape.rewritten, same]
    rcases form with rfl | ⟨rest, rfl⟩
    · exact List.cons_ne_nil _ _
    · exact List.cons_ne_nil _ _
  · intro b mem
    rw [Shape.rewritten, same] at mem
    rcases inside b mem with mem | rfl
    · exact taken.framed.target_visible b mem
    · decide
  · rw [Shape.rewritten, same, reduceTarget_reduced target]
    rfl
  · intro l mem
    obtain ⟨m, here, rfl⟩ := List.mem_map.mp mem
    exact (taken.lines m here).rewritten

theorem Shape.Taken.rewritten_parsed {s : Shape} (taken : s.Taken) :
    s.rewritten.parsed = s.parsed := by
  obtain ⟨reduced, target⟩ := Option.isSome_iff_exists.mp taken.target
  have same : s.parsed.target = reduced := by
    rw [Shape.parsed, target, Option.getD_some]
  have again : (reduceTarget s.rewritten.target).getD [] = s.parsed.target := by
    rw [Shape.rewritten, same, reduceTarget_reduced target, Option.getD_some]
  have headers : s.rewritten.lines.map FieldLine.header = s.lines.map FieldLine.header := by
    rw [Shape.rewritten, List.map_map]
    exact List.map_congr_left fun l _ => l.rewritten_header
  rw [Shape.parsed, again, headers]
  rfl

/-- A head that is taken, serialized, gives the same result again. -/
theorem serialize_parses {head : Bytes} {s : Shape} (taken : s.Taken) (text : head = s.text) :
    parseRequestHead (serialize (parseHead head) ++ crlf2) (serialize (parseHead head)).length =
      parseHead head := by
  rw [parseRequestHead, List.take_left' rfl, text, parseHead_taken taken, serialize_parsed,
    parseHead_taken taken.rewritten, taken.rewritten_parsed]

/-- On a byte string up to its first empty line the parser decides the grammar, unless the head
slips; what it takes it keeps line by line, and reads back when it is serialized. -/
theorem parseRequestHead_exact (ends : findSub crlf2 raw = some headEnd) :
    (((parseRequestHead raw headEnd).ok = true ↔ Grammatical (raw.take headEnd)) ↔
      ¬ Slips (raw.take headEnd)) ∧
    ((parseRequestHead raw headEnd).ok = true →
      (∃ s : Shape, s.Taken ∧ raw.take headEnd = s.text ∧
        (parseRequestHead raw headEnd).headers = s.lines.map FieldLine.header) ∧
      parseRequestHead (serialize (parseRequestHead raw headEnd) ++ crlf2)
        (serialize (parseRequestHead raw headEnd)).length = parseRequestHead raw headEnd) := by
  refine ⟨grammar_iff ends, fun ok => ?_⟩
  obtain ⟨s, taken, text⟩ := (parseRequestHead_taken ends).mp ok
  refine ⟨⟨s, taken, text, ?_⟩, serialize_parses taken text⟩
  rw [parseRequestHead, text, parseHead_taken taken]
  rfl

/-- DEL in a head that is taken stands in a field line. -/
theorem slips_of_del (ends : findSub crlf2 raw = some headEnd)
    (ok : (parseRequestHead raw headEnd).ok = true) (del : 0x7f ∈ raw.take headEnd) :
    Slips (raw.take headEnd) := by
  obtain ⟨s, taken, text⟩ := (parseRequestHead_taken ends).mp ok
  have plain : ∀ part : Bytes, (∀ b ∈ part, visible b) → 0x7f ∉ part := fun part all mem =>
    absurd (all _ mem).2 (by decide)
  have line : 0x7f ∉ requestLine s.method s.target s.version := by
    simp only [requestLine, List.mem_append, List.mem_cons, not_or]
    exact ⟨plain _ taken.framed.method_visible, by decide, plain _ taken.framed.target_visible,
      by decide, plain _ taken.framed.version_visible⟩
  have here : 0x7f ∈ joined s.lines := by
    rw [text, Shape.text, List.mem_append] at del
    exact del.resolve_left line
  obtain ⟨l, mem, inside⟩ := List.mem_flatMap.mp here
  refine ⟨s, taken, .inr ⟨l, mem, .inl ?_⟩, text⟩
  exact (List.mem_append.mp inside).resolve_left (by decide)

def plainRaw : Bytes := ascii "GET / HTTP/1.1\r\nHost: h \r\n\r\n"

theorem parseRequestHead_exact_get :
    (((parseRequestHead plainRaw 24).ok = true ↔ Grammatical (plainRaw.take 24)) ↔
      ¬ Slips (plainRaw.take 24)) ∧
    (∃ s : Shape, s.Taken ∧ plainRaw.take 24 = s.text ∧
      (parseRequestHead plainRaw 24).headers = s.lines.map FieldLine.header) ∧
    parseRequestHead (serialize (parseRequestHead plainRaw 24) ++ crlf2)
      (serialize (parseRequestHead plainRaw 24)).length = parseRequestHead plainRaw 24 := by
  have facts : findSub crlf2 plainRaw = some 24 ∧ (parseRequestHead plainRaw 24).ok = true := by
    rw [plainRaw, ascii_ofList]
    decide +kernel
  obtain ⟨exact_, taken⟩ := parseRequestHead_exact facts.1
  exact ⟨exact_, taken facts.2⟩

def delRaw : Bytes := ascii "GET / HTTP/1.1\r\nX: a\x7f\r\n\r\n"

/-- A head with DEL in a field value is taken, and is not in the grammar. -/
theorem parseRequestHead_del :
    findSub crlf2 delRaw = some 21 ∧ (parseRequestHead delRaw 21).ok = true ∧
      ¬ Grammatical (delRaw.take 21) := by
  have facts : findSub crlf2 delRaw = some 21 ∧ (parseRequestHead delRaw 21).ok = true ∧
      0x7f ∈ delRaw.take 21 := by
    rw [delRaw, ascii_ofList]
    decide +kernel
  obtain ⟨ends, ok, del⟩ := facts
  exact ⟨ends, ok, (slips_of_del ends ok del).not_grammatical⟩

end NitroServer.Head
