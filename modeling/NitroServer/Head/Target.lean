/-
Request targets: the forms the parser takes, and where an absolute form is routed.

`reduceTarget` looks for the first slash behind `://` before the query is cut off. With a
path behind the authority that slash begins the path. Without one it is the first slash of
the query, if there is any, and the query is lost either way.

* `reduceTarget_isSome` — the targets that are taken.
* `absolute_form_iff` — an absolute form is the request of its origin form exactly when it has
  a path, or no query to lose.
-/

import NitroServer.Head.Lines
import NitroServer.Engine.Loop

namespace NitroServer.Head

open NitroServer.Engine NitroServer.Lib NitroServer.Chunked

/-! ### The forms -/

/-- The target forms of a request line. -/
inductive TargetForm : Bytes → Prop where
  | origin (rest : Bytes) : TargetForm (47 :: rest)
  | asterisk : TargetForm [42]
  | http {rest : Bytes} : rest ≠ [] → TargetForm (ascii "http://" ++ rest)
  | https {rest : Bytes} : rest ≠ [] → TargetForm (ascii "https://" ++ rest)

/-- From the first slash on. -/
def fromSlash (s : Bytes) : Bytes :=
  match s.findIdx? (· == 47) with
  | none => [47]
  | some slash => s.drop slash

theorem http_bytes : ascii "http://" = [104, 116, 116, 112, 58, 47, 47] := by decide

theorem https_bytes : ascii "https://" = [104, 116, 116, 112, 115, 58, 47, 47] := by decide

theorem reduceTarget_http {rest : Bytes} (full : rest ≠ []) :
    reduceTarget (ascii "http://" ++ rest) = some (fromSlash rest) := by
  have pos := List.length_pos_of_ne_nil full
  have seven : (ascii "http://").length = 7 := by decide
  have form : 7 < (ascii "http://" ++ rest).length ∧
      ((ascii "http://" ++ rest).take 7 = ascii "http://" ∨
        (ascii "http://" ++ rest).take 8 = ascii "https://") := by
    refine ⟨?_, .inl (List.take_left' seven)⟩
    rw [List.length_append, seven]
    omega
  have scheme : findSub (ascii "://") (ascii "http://" ++ rest) = some 4 :=
    findSub_append rest (by decide)
  have behind : (ascii "http://" ++ rest).drop 7 = rest := List.drop_left' seven
  rw [reduceTarget, if_pos form, scheme, fromSlash]
  simp only [Option.getD_some, behind]
  cases rest.findIdx? (· == 47) with
  | none => rfl
  | some slash => rfl

theorem reduceTarget_https (rest : Bytes) :
    reduceTarget (ascii "https://" ++ rest) = some (fromSlash rest) := by
  have eight : (ascii "https://").length = 8 := by decide
  have form : 7 < (ascii "https://" ++ rest).length ∧
      ((ascii "https://" ++ rest).take 7 = ascii "http://" ∨
        (ascii "https://" ++ rest).take 8 = ascii "https://") := by
    refine ⟨?_, .inr (List.take_left' eight)⟩
    rw [List.length_append, eight]
    omega
  have scheme : findSub (ascii "://") (ascii "https://" ++ rest) = some 5 :=
    findSub_append rest (by decide)
  have behind : (ascii "https://" ++ rest).drop 8 = rest := List.drop_left' eight
  rw [reduceTarget, if_pos form, scheme, fromSlash]
  simp only [Option.getD_some, behind]
  cases rest.findIdx? (· == 47) with
  | none => rfl
  | some slash => rfl

/-- A target that does not begin with `h` is not absolute. -/
theorem not_absolute {target : Bytes} (other : target.head? ≠ some 104) :
    ¬ (7 < target.length ∧
      (target.take 7 = ascii "http://" ∨ target.take 8 = ascii "https://")) := by
  rintro ⟨-, same | same⟩
  · rw [http_bytes] at same
    cases target with
    | nil => cases same
    | cons b rest => exact other (by rw [List.head?_cons, (List.cons_eq_cons.mp same).1])
  · rw [https_bytes] at same
    cases target with
    | nil => cases same
    | cons b rest => exact other (by rw [List.head?_cons, (List.cons_eq_cons.mp same).1])

theorem reduceTarget_origin (rest : Bytes) : reduceTarget (47 :: rest) = some (47 :: rest) := by
  rw [reduceTarget, if_neg (not_absolute (by simp)), if_neg (by simp)]

theorem reduceTarget_asterisk : reduceTarget [42] = some [42] := by decide

/-- The targets that are taken: those of one of the forms, and a bare `https://`. -/
theorem reduceTarget_isSome {target : Bytes} :
    (reduceTarget target).isSome = true ↔ TargetForm target ∨ target = ascii "https://" := by
  constructor
  · intro taken
    unfold reduceTarget at taken
    split at taken
    · rename_i form
      obtain ⟨long, http | https⟩ := form
      · left
        have whole := List.take_append_drop 7 target
        rw [http] at whole
        rw [← whole]
        refine .http fun none_ => ?_
        have size := congrArg List.length none_
        rw [List.length_drop, List.length_nil] at size
        omega
      · have whole := List.take_append_drop 8 target
        rw [https] at whole
        by_cases bare : target.drop 8 = []
        · right
          rw [← whole, bare, List.append_nil]
        · left
          rw [← whole]
          exact .https bare
    · split at taken
      · cases taken
      · rename_i form
        left
        by_cases star : target = [42]
        · rw [star]
          exact .asterisk
        · have slash : target.head? = some 47 := by
            by_contra other
            exact form ⟨other, star⟩
          cases target with
          | nil => cases slash
          | cons b rest =>
              obtain rfl := Option.some.inj slash
              exact .origin rest
  · rintro (form | rfl)
    · cases form with
      | origin rest => rw [reduceTarget_origin, Option.isSome_some]
      | asterisk => rw [reduceTarget_asterisk, Option.isSome_some]
      | http full => rw [reduceTarget_http full, Option.isSome_some]
      | https full => rw [reduceTarget_https, Option.isSome_some]
    · have bare := reduceTarget_https []
      rw [List.append_nil] at bare
      rw [bare, Option.isSome_some]

theorem fromSlash_form (s : Bytes) : ∃ rest, fromSlash s = 47 :: rest ∧ ∀ b ∈ rest, b ∈ s := by
  unfold fromSlash
  split
  · exact ⟨[], rfl, fun b mem => by cases mem⟩
  · rename_i slash found
    obtain ⟨lt, here, -⟩ := List.findIdx?_eq_some_iff_getElem.mp found
    have cons := List.drop_eq_getElem_cons lt
    rw [eq_of_beq here] at cons
    exact ⟨s.drop (slash + 1), cons, fun b mem => List.mem_of_mem_drop mem⟩

/-- A reduced target is in origin or asterisk form, of bytes of the target. -/
theorem reduced_form {target reduced : Bytes} (taken : reduceTarget target = some reduced) :
    (reduced = [42] ∨ ∃ rest, reduced = 47 :: rest) ∧ ∀ b ∈ reduced, b ∈ target ∨ b = 47 := by
  have slashed : ∀ s, (∀ b ∈ s, b ∈ target) → ∀ b ∈ fromSlash s, b ∈ target ∨ b = 47 := by
    intro s inside b mem
    obtain ⟨rest, same, part⟩ := fromSlash_form s
    rw [same] at mem
    rcases List.mem_cons.mp mem with rfl | mem
    · exact .inr rfl
    · exact .inl (inside b (part b mem))
  have isSome : (reduceTarget target).isSome = true := by
    rw [taken]
    rfl
  rcases reduceTarget_isSome.mp isSome with form | rfl
  · cases form with
    | origin rest =>
        rw [reduceTarget_origin] at taken
        obtain rfl := Option.some.inj taken
        exact ⟨.inr ⟨rest, rfl⟩, fun b mem => .inl mem⟩
    | asterisk =>
        rw [reduceTarget_asterisk] at taken
        obtain rfl := Option.some.inj taken
        exact ⟨.inl rfl, fun b mem => .inl mem⟩
    | @http rest full =>
        rw [reduceTarget_http full] at taken
        obtain rfl := Option.some.inj taken
        obtain ⟨more, same, -⟩ := fromSlash_form rest
        exact ⟨.inr ⟨more, same⟩, slashed rest fun b mem => List.mem_append_right _ mem⟩
    | @https rest full =>
        rw [reduceTarget_https] at taken
        obtain rfl := Option.some.inj taken
        obtain ⟨more, same, -⟩ := fromSlash_form rest
        exact ⟨.inr ⟨more, same⟩, slashed rest fun b mem => List.mem_append_right _ mem⟩
  · have bare := reduceTarget_https []
    rw [List.append_nil, taken] at bare
    obtain rfl := Option.some.inj bare
    exact ⟨.inr ⟨[], rfl⟩, fun b mem => .inr (List.mem_singleton.mp mem)⟩

/-- A reduced target stays. -/
theorem reduceTarget_reduced {target reduced : Bytes} (taken : reduceTarget target = some reduced) :
    reduceTarget reduced = some reduced := by
  obtain ⟨rfl | ⟨rest, rfl⟩, -⟩ := reduced_form taken
  · exact reduceTarget_asterisk
  · exact reduceTarget_origin rest

/-! ### Absolute and origin form -/

/-- A query as it follows a path. -/
def queryPart (q : Option Bytes) : Bytes := q.elim [] (63 :: ·)

/-- `http://a p`, or with `https`, and the query. -/
def absoluteForm (secure : Bool) (a p : Bytes) (q : Option Bytes) : Bytes :=
  (if secure then ascii "https://" else ascii "http://") ++ (a ++ p ++ queryPart q)

/-- The path, `/` when there is none, and the query. -/
def originForm (p : Bytes) (q : Option Bytes) : Bytes :=
  (if p = [] then [47] else p) ++ queryPart q

section Slash

variable {a p : Bytes} {q : Option Bytes}

theorem fromSlash_path {rest : Bytes} (noSlash : 47 ∉ a) :
    fromSlash (a ++ 47 :: rest) = 47 :: rest := by
  rw [fromSlash, findIdx_cut noSlash]
  exact List.drop_left' rfl

theorem fromSlash_none (noSlash : 47 ∉ a) : fromSlash a = [47] := by
  rw [fromSlash, findIdx_none noSlash]

theorem splitTarget_path (full : p ≠ []) (plain : 63 ∉ p) :
    splitTarget (p ++ queryPart q) = (p, q.getD []) := by
  cases q with
  | none =>
      rw [queryPart, Option.elim_none, List.append_nil, splitTarget, findIdx_none plain]
      simp only [if_neg full, Option.getD_none]
  | some query =>
      have behind : (p ++ 63 :: query).drop (p.length + 1) = query := by
        rw [← List.drop_drop, List.drop_left' rfl]
        rfl
      have front : (p ++ 63 :: query).take p.length = p := List.take_left' rfl
      rw [queryPart, Option.elim_some, splitTarget, findIdx_cut plain]
      simp only [front, behind, if_neg full, Option.getD_some]

/-- What is left of a query behind a slash is shorter than it. -/
theorem splitTarget_slash (s : Bytes) : (splitTarget (47 :: s)).2.length ≤ s.length := by
  unfold splitTarget
  cases found : (47 :: s).findIdx? (· == 63) with
  | none => exact Nat.zero_le _
  | some i =>
      simp only [List.length_drop, List.length_cons]
      omega

theorem reduceTarget_absolute {secure : Bool}
    (target : absoluteForm secure a p q ≠ ascii "http://") :
    reduceTarget (absoluteForm secure a p q) = some (fromSlash (a ++ p ++ queryPart q)) := by
  cases secure with
  | true => exact reduceTarget_https _
  | false =>
      refine reduceTarget_http fun none_ => target ?_
      rw [absoluteForm, none_]
      exact List.append_nil _

theorem reduceTarget_bare : reduceTarget (ascii "http://") = none := by decide

/-- The absolute form with a path is routed as its origin form. -/
theorem reduceTarget_path {secure : Bool} {s : Bytes} (noSlash : 47 ∉ a) :
    reduceTarget (absoluteForm secure a (47 :: s) q) = some (originForm (47 :: s) q) := by
  have shape : a ++ 47 :: s ++ queryPart q = a ++ 47 :: (s ++ queryPart q) := List.append_assoc ..
  have long : absoluteForm secure a (47 :: s) q ≠ ascii "http://" := by
    intro bare
    have size := congrArg List.length bare
    have seven : (ascii "http://").length = 7 := by decide
    have eight : (ascii "https://").length = 8 := by decide
    rw [absoluteForm, shape, seven] at size
    cases secure with
    | true =>
        simp only [if_true, List.length_append, List.length_cons, eight] at size
        omega
    | false =>
        simp only [Bool.false_eq_true, if_false, List.length_append, List.length_cons, seven] at size
        omega
  rw [reduceTarget_absolute long, shape, fromSlash_path noSlash, originForm,
    if_neg (List.cons_ne_nil 47 s), List.cons_append]

/-- Without a path, the query of an absolute form is lost. -/
theorem reduceTarget_pathless {secure : Bool} (noSlash : 47 ∉ a)
    (target : absoluteForm secure a [] q ≠ ascii "http://") :
    ∃ s, reduceTarget (absoluteForm secure a [] q) = some (47 :: s) ∧
      (q.getD [] = [] → s = []) ∧ (q.getD [] ≠ [] → s.length < (q.getD []).length) := by
  rw [reduceTarget_absolute target, List.append_nil]
  cases q with
  | none =>
      refine ⟨[], ?_, fun _ => rfl, fun full => absurd rfl full⟩
      rw [queryPart, Option.elim_none, List.append_nil, fromSlash_none noSlash]
  | some query =>
      rw [queryPart, Option.elim_some, Option.getD_some]
      by_cases slash : 47 ∈ query
      · obtain ⟨u, v, rfl, absent⟩ := List.eq_append_cons_of_mem slash
        have shape : a ++ 63 :: (u ++ 47 :: v) = (a ++ 63 :: u) ++ 47 :: v := by
          rw [List.append_assoc, List.cons_append]
        have noSlash' : 47 ∉ a ++ 63 :: u := by
          rw [List.mem_append, List.mem_cons, not_or, not_or]
          exact ⟨noSlash, by decide, absent⟩
        refine ⟨v, ?_, fun none_ => absurd none_ (List.append_ne_nil_of_right_ne_nil u
          (List.cons_ne_nil 47 v)), fun _ => ?_⟩
        · rw [shape, fromSlash_path noSlash']
        · rw [List.length_append, List.length_cons]
          omega
      · have noSlash' : 47 ∉ a ++ 63 :: query := by
          rw [List.mem_append, List.mem_cons, not_or, not_or]
          exact ⟨noSlash, by decide, slash⟩
        exact ⟨[], by rw [fromSlash_none noSlash'], fun _ => rfl, List.length_pos_of_ne_nil⟩

end Slash

section Route

variable (env : Env) (chunked : Bool)

/-- Another head is the same request: it is taken, and its path, query and route are those of
this one. -/
def SameRequest (other this : ParsedHead) : Prop :=
  other.ok = true ∧ (Request.of env other chunked).path = (Request.of env this chunked).path ∧
    (Request.of env other chunked).query = (Request.of env this chunked).query ∧
    (Request.of env other chunked).route = (Request.of env this chunked).route

variable {env chunked}

/-- Two targets of one request line and one list of fields. -/
theorem parse_two {method version one two t₁ t₂ rest : Bytes} (framed₁ : Framed method one version)
    (framed₂ : Framed method two version) (more : rest = [] ∨ crlf <+: rest)
    (reduced₁ : reduceTarget one = some t₁) (reduced₂ : reduceTarget two = some t₂)
    (ok : (parseHead (requestLine method two version ++ rest)).ok = true) :
    ∃ p : ParsedHead, p.ok = true ∧
      parseHead (requestLine method one version ++ rest) = { p with target := t₁ } ∧
      parseHead (requestLine method two version ++ rest) = { p with target := t₂ } := by
  rw [parseHead_framed framed₂ more, reduced₂, Option.elim_some] at ok ⊢
  rw [parseHead_framed framed₁ more, reduced₁, Option.elim_some]
  cases fields : fieldsBehind rest with
  | none =>
      rw [fields] at ok
      cases ok
  | some headers =>
      exact ⟨⟨(parseMethod method).1, (parseMethod method).2, [], version, headers, true, false⟩,
        rfl, rfl, rfl⟩

theorem framed_absolute {method version a p : Bytes} {q : Option Bytes} {secure : Bool}
    (framed : Framed method (originForm p q) version) (authority : ∀ b ∈ a, visible b) :
    Framed method (absoluteForm secure a p q) version where
  method_ne := framed.method_ne
  method_visible := framed.method_visible
  target_ne := by
    refine List.append_ne_nil_of_left_ne_nil ?_ _
    cases secure with
    | true =>
        rw [if_pos rfl, https_bytes]
        exact List.cons_ne_nil _ _
    | false =>
        rw [if_neg Bool.false_ne_true, http_bytes]
        exact List.cons_ne_nil _ _
  target_visible b mem := by
    have path : ∀ b ∈ p ++ queryPart q, visible b := by
      intro b mem
      refine framed.target_visible b ?_
      rcases List.mem_append.mp mem with here | there
      · rw [originForm, if_neg (List.ne_nil_of_mem here)]
        exact List.mem_append_left _ here
      · exact List.mem_append_right _ there
    rw [absoluteForm, List.append_assoc, List.mem_append, List.mem_append] at mem
    rcases mem with mem | mem | mem
    · refine literals_visible _ ?_ b mem
      cases secure with
      | true => simp
      | false => simp
    · exact authority b mem
    · exact path b mem
  version := framed.version

/-- An absolute form is the request of its origin form exactly when it has a path, or no query
to lose; a bare `http://` is refused. -/
theorem absolute_form_iff (env : Env) (chunked secure : Bool) {method version a p rest : Bytes}
    {q : Option Bytes} (authority : ∀ b ∈ a, visible b) (noSlash : 47 ∉ a)
    (path : p = [] ∨ p.head? = some 47) (plain : 63 ∉ p)
    (framed : Framed method (originForm p q) version) (more : rest = [] ∨ crlf <+: rest)
    (ok : (parseHead (requestLine method (originForm p q) version ++ rest)).ok = true) :
    SameRequest env chunked
        (parseHead (requestLine method (absoluteForm secure a p q) version ++ rest))
        (parseHead (requestLine method (originForm p q) version ++ rest)) ↔
      (p = [] → q.getD [] = []) ∧ absoluteForm secure a p q ≠ ascii "http://" := by
  have framed' : Framed method (absoluteForm secure a p q) version :=
    framed_absolute framed authority
  cases p with
  | cons b s =>
      obtain rfl : b = 47 := Option.some.inj (path.resolve_left (List.cons_ne_nil b s))
      have reduced : reduceTarget (absoluteForm secure a (47 :: s) q) =
          some (originForm (47 :: s) q) := reduceTarget_path noSlash
      have origin : reduceTarget (originForm (47 :: s) q) = some (originForm (47 :: s) q) := by
        rw [originForm, if_neg (List.cons_ne_nil 47 s), List.cons_append]
        exact reduceTarget_origin _
      obtain ⟨p, taken, one, two⟩ := parse_two framed' framed more reduced origin ok
      rw [one, two]
      refine iff_of_true ⟨taken, rfl, rfl, rfl⟩ ⟨fun none_ => absurd none_ (List.cons_ne_nil 47 s),
        fun bare => ?_⟩
      rw [bare, reduceTarget_bare] at reduced
      cases reduced
  | nil =>
      by_cases bare : absoluteForm secure a [] q = ascii "http://"
      · refine iff_of_false (fun same => ?_) fun right => right.2 bare
        have taken := same.1
        rw [parseHead_framed framed' more, bare, reduceTarget_bare] at taken
        cases taken
      · obtain ⟨s, reduced, noQuery, query⟩ := reduceTarget_pathless noSlash bare
        have origin : reduceTarget (originForm [] q) = some ([47] ++ queryPart q) :=
          reduceTarget_origin _
        obtain ⟨p, taken, one, two⟩ := parse_two framed' framed more reduced origin ok
        have split : splitTarget ([47] ++ queryPart q) = ([47], q.getD []) :=
          splitTarget_path (List.cons_ne_nil 47 []) (by decide)
        rw [one, two]
        simp only [SameRequest, Request.of, split, taken, bare, ne_eq, not_false_eq_true, and_true,
          true_and, forall_const]
        by_cases lost : q.getD [] = []
        · have alone : splitTarget [47] = ([47], []) := by decide
          rw [noQuery lost, alone, lost]
          exact iff_of_true ⟨rfl, rfl, rfl⟩ rfl
        · refine iff_of_false (fun same => ?_) lost
          have shorter := query lost
          rw [← same.2.1] at shorter
          exact absurd (splitTarget_slash s) (Nat.not_le_of_lt shorter)

end Route

/-- The request line of `GET`, and one field. -/
def getLine (target : Bytes) : Bytes :=
  requestLine (ascii "GET") target (ascii "HTTP/1.1") ++ (crlf ++ ascii "Host: h")

theorem absolute_form_path :
    SameRequest sampleEnv false
        (parseHead (getLine (absoluteForm true (ascii "h") (ascii "/p") (some (ascii "x")))))
        (parseHead (getLine (originForm (ascii "/p") (some (ascii "x"))))) ↔
      (ascii "/p" = [] → (some (ascii "x")).getD [] = []) ∧
        absoluteForm true (ascii "h") (ascii "/p") (some (ascii "x")) ≠ ascii "http://" := by
  have facts : (∀ b ∈ ascii "h", visible b) ∧ 47 ∉ ascii "h" ∧ (ascii "/p").head? = some 47 ∧
      63 ∉ ascii "/p" ∧ ascii "GET" ≠ [] ∧ (∀ b ∈ ascii "GET", visible b) ∧
      originForm (ascii "/p") (some (ascii "x")) ≠ [] ∧
      (∀ b ∈ originForm (ascii "/p") (some (ascii "x")), visible b) ∧
      (parseHead (getLine (originForm (ascii "/p") (some (ascii "x"))))).ok = true := by
    decide +kernel
  obtain ⟨authority, noSlash, path, plain, method, methods, target, targets, ok⟩ := facts
  exact absolute_form_iff sampleEnv false true authority noSlash (.inr path) plain
    ⟨method, methods, target, targets, .inl rfl⟩ (.inr ⟨ascii "Host: h", rfl⟩) ok

/-- `http://h?x=/a` is routed as `/a`, its query lost; `/?x=/a` is routed as `/`. -/
theorem absolute_query_path :
    (parseHead (getLine (originForm [] (some (ascii "x=/a"))))).ok = true ∧
      (Request.of sampleEnv (parseHead (getLine (originForm [] (some (ascii "x=/a"))))) false).path =
        ascii "/" ∧
      (Request.of sampleEnv (parseHead (getLine (absoluteForm false (ascii "h") []
        (some (ascii "x=/a"))))) false).path = ascii "/a" ∧
      (Request.of sampleEnv (parseHead (getLine (absoluteForm false (ascii "h") []
        (some (ascii "x=/a"))))) false).query = [] ∧
      ¬ SameRequest sampleEnv false
        (parseHead (getLine (absoluteForm false (ascii "h") [] (some (ascii "x=/a")))))
        (parseHead (getLine (originForm [] (some (ascii "x=/a"))))) := by
  have facts : (parseHead (getLine (originForm [] (some (ascii "x=/a"))))).ok = true ∧
      (Request.of sampleEnv (parseHead (getLine (originForm [] (some (ascii "x=/a"))))) false).path =
        ascii "/" ∧
      (Request.of sampleEnv (parseHead (getLine (absoluteForm false (ascii "h") []
        (some (ascii "x=/a"))))) false).path = ascii "/a" ∧
      (Request.of sampleEnv (parseHead (getLine (absoluteForm false (ascii "h") []
        (some (ascii "x=/a"))))) false).query = [] ∧ ascii "/a" ≠ ascii "/" := by
    decide +kernel
  obtain ⟨ok, origin, absolute, query, differ⟩ := facts
  refine ⟨ok, origin, absolute, query, fun same => differ ?_⟩
  rw [← absolute, ← origin]
  exact same.2.1

end NitroServer.Head
