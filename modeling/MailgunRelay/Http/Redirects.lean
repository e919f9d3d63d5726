import MailgunRelay.Http.Quoting
import MailgunRelay.Http.Routes
import MailgunRelay.Lib.Pattern

/-
  Where a redirect leads.

  The `Location` is the path of a route, at the host that
  the request names or at the address of the connection.  It
  never starts with two slashes, so it leaves that host for
  no other, and what is requested there is redirected no
  more.

  Key definitions include:
    * `MailgunRelay.Http.isNetlocChar`
    * `MailgunRelay.Http.Origin`

  Key theorems include:
    * `MailgunRelay.Http.netloc_chars`
    * `MailgunRelay.Http.getLast?_percentDecode`
    * `MailgunRelay.Http.redirect_sound`
-/

------------------------------------------------------------
-- Digits Of Numbers
------------------------------------------------------------

namespace MailgunRelay

namespace Http

/- The characters of a host and a port. -/
def isNetlocChar (c : Char) : Bool :=
  isAsciiAlphanumeric c || ".:[]-".toList.contains c

theorem mem_toDigits
    {base n : Nat}
    (hBase : 1 < base)
    {c : Char}
    (hMem : c ∈ Nat.toDigits base n) :
    ∃ d < base, c = d.digitChar := by
  induction n using Nat.strong_induction_on with
  | _ n ih =>
      rw [Nat.toDigits_eq_if hBase] at hMem
      split at hMem
      · rename_i hSmall
        exact ⟨n, hSmall, List.mem_singleton.mp hMem⟩
      · rename_i hLarge
        rcases List.mem_append.mp hMem with hFront | hLast
        · exact ih (n / base)
            (Nat.div_lt_self (by omega) hBase) hFront
        · exact ⟨n % base, Nat.mod_lt n (by omega),
            List.mem_singleton.mp hLast⟩

theorem isNetlocChar_of_toDigits
    {base n : Nat}
    (hBase : 1 < base)
    (hHex : base ≤ 16)
    {c : Char}
    (hMem : c ∈ Nat.toDigits base n) :
    isNetlocChar c = true := by
  rcases mem_toDigits hBase hMem with ⟨d, hSmall, rfl⟩
  have hDigits : ∀ d < 16, isNetlocChar d.digitChar = true := by
    decide +kernel
  exact hDigits d (by omega)

end Http

end MailgunRelay

------------------------------------------------------------
-- Addresses
------------------------------------------------------------

namespace MailgunRelay

namespace Http

/- Text that may stand for a host. -/
def IsNetloc (text : Str) : Prop :=
  text ≠ [] ∧ ∀ c ∈ text, isNetlocChar c = true

theorem intercalate_chars
    {sep : Str}
    {parts : List Str}
    (hSep : ∀ c ∈ sep, isNetlocChar c = true)
    (hParts : ∀ part ∈ parts, ∀ c ∈ part,
      isNetlocChar c = true) :
    ∀ c ∈ sep.intercalate parts, isNetlocChar c = true := by
  intro c hMem
  rcases Lib.Text.mem_intercalate hMem with hHere | hPart
  · exact hSep c hHere
  · rcases hPart with ⟨part, hPart, hIn⟩
    exact hParts part hPart c hIn

theorem intercalate_ne_nil
    {sep part : Str}
    {parts : List Str}
    (hPart : part ≠ []) :
    sep.intercalate (part :: parts) ≠ [] := by
  cases parts with
  | nil =>
      rw [List.intercalate_singleton]
      exact hPart
  | cons next parts =>
      rw [List.intercalate_cons_cons, List.append_assoc]
      exact List.append_ne_nil_of_left_ne_nil hPart _

theorem displayV4_netloc
    {octets : List UInt8}
    (hSome : octets ≠ []) :
    IsNetloc (displayV4 octets) := by
  constructor
  · cases octets with
    | nil => exact absurd rfl hSome
    | cons octet rest =>
        exact intercalate_ne_nil Nat.toDigits_ne_nil
  · apply intercalate_chars
    · exact List.all_eq_true.mp (by decide)
    · intro part hPart c hMem
      rcases List.mem_map.mp hPart with ⟨octet, -, rfl⟩
      exact isNetlocChar_of_toDigits (by decide) (by decide)
        hMem

theorem displaySegments_chars
    (segments : List UInt16) :
    ∀ c ∈ displaySegments segments, isNetlocChar c = true := by
  apply intercalate_chars
  · exact List.all_eq_true.mp (by decide)
  · intro part hPart c hMem
    rcases List.mem_map.mp hPart with ⟨segment, -, rfl⟩
    exact isNetlocChar_of_toDigits (by decide) (by decide) hMem

theorem displayV6_netloc
    {segments : List UInt16}
    (hSome : segments ≠ []) :
    IsNetloc (displayV6 segments) := by
  unfold displayV6
  dsimp only
  split
  · constructor
    · rw [List.append_assoc]
      apply List.append_ne_nil_of_right_ne_nil
      apply List.append_ne_nil_of_left_ne_nil
      decide
    · rw [List.forall_mem_append, List.forall_mem_append]
      exact
        ⟨⟨displaySegments_chars _,
            List.all_eq_true.mp (by decide)⟩,
          displaySegments_chars _⟩
  · constructor
    · cases segments with
      | nil => exact absurd rfl hSome
      | cons segment rest =>
          exact intercalate_ne_nil Nat.toDigits_ne_nil
    · exact displaySegments_chars segments

/- An address is four octets, or eight segments. -/
theorem mappedOctets_ne_nil
    {segments : List UInt16}
    {octets : List UInt8}
    (hMapped : mappedOctets segments = some octets) :
    octets ≠ [] := by
  unfold mappedOctets at hMapped
  split at hMapped
  · cases hMapped
    exact List.cons_ne_nil _ _
  · cases hMapped

theorem toList_ne_nil
    {α : Type}
    {n : Nat}
    (xs : Vector α (n + 1)) :
    xs.toList ≠ [] := by
  intro hNil
  have hLength := congrArg List.length hNil
  rw [Vector.length_toList] at hLength
  cases hLength

theorem display_netloc
    (ip : IpAddr) :
    IsNetloc ip.display := by
  cases ip with
  | v4 octets => exact displayV4_netloc (toList_ne_nil octets)
  | v6 segments =>
      unfold IpAddr.display
      dsimp only
      split
      · rename_i octets hMapped
        constructor
        · apply List.append_ne_nil_of_left_ne_nil
          decide
        · rw [List.forall_mem_append]
          exact
            ⟨List.all_eq_true.mp (by decide),
              (displayV4_netloc (mappedOctets_ne_nil hMapped)).2⟩
      · exact displayV6_netloc (toList_ne_nil segments)

end Http

end MailgunRelay

------------------------------------------------------------
-- Origins
------------------------------------------------------------

namespace MailgunRelay

namespace Http

/- The letters of `HOST_RE`. -/
theorem host_netloc
    {request : Request}
    {text : Str}
    (hHost : host request = some text) :
    IsNetloc text := by
  unfold host at hHost
  rw [Option.bind_eq_bind, Option.bind_eq_some_iff] at hHost
  rcases hHost with ⟨value, -, hHost⟩
  rw [Option.bind_eq_bind, Option.bind_eq_some_iff] at hHost
  rcases hHost with ⟨name, -, hHost⟩
  rw [Option.ite_none_right_eq_some, Option.some.injEq] at hHost
  rcases hHost with ⟨hMatch, rfl⟩
  constructor
  · rintro rfl
    rcases Lib.Pattern.exists_of_needs
      (p := fun _ => true) (by decide +kernel) hMatch with
      ⟨c, hMem, -⟩
    cases hMem
  · exact
      Lib.Pattern.forall_of_allows (by decide +kernel) hMatch

theorem netloc_chars
    {request : Request}
    {text : Str}
    (hNetloc : netloc request = some text) :
    IsNetloc text := by
  unfold netloc at hNetloc
  split at hNetloc
  · rename_i name hHost
    cases hNetloc
    exact host_netloc hHost
  · rename_i «local» hHost hLocal
    have hAddress := display_netloc «local».ip
    split at hNetloc
    · cases hNetloc
      exact hAddress
    · cases hNetloc
      constructor
      · exact List.append_ne_nil_of_left_ne_nil hAddress.1 _
      · rw [List.forall_mem_append, List.forall_mem_cons]
        refine ⟨hAddress.2, by decide, ?_⟩
        intro c hMem
        exact isNetlocChar_of_toDigits (by decide) (by decide)
          hMem
  · cases hNetloc

theorem scheme_mem
    (request : Request) :
    scheme request ∈ schemes := by
  have hHttp : "http".toList ∈ schemes := by decide
  unfold scheme
  dsimp only
  split
  · split
    · rename_i hForwarded
      exact List.elem_iff.mp hForwarded.2
    · exact hHttp
  · exact hHttp

theorem isUrlChar_of_netloc
    {c : Char}
    (hNetloc : isNetlocChar c = true) :
    isUrlChar c = true := by
  have hAscii : isAsciiChar c = true := by
    rcases Bool.or_eq_true_iff.mp hNetloc with hAlpha | hOther
    · exact (isAlphanum_plain hAlpha).1
    · have hOthers :
          (".:[]-".toList.all isAsciiChar) = true := by
        decide
      exact List.all_eq_true.mp hOthers c
        (List.elem_iff.mp hOther)
  exact
    forall_ascii
      (P := fun c => isNetlocChar c = true → isUrlChar c = true)
      (by decide +kernel) hAscii hNetloc

/- What stands before the path, if anything does. -/
inductive Origin : Str → Prop where
  | none : Origin []
  | url
      {scheme netloc : Str}
      (hScheme : scheme ∈ schemes)
      (hNetloc : IsNetloc netloc) :
      Origin (scheme ++ "://".toList ++ netloc)

/- An origin is quoted as itself. -/
theorem quote_origin
    {origin : Str}
    (hOrigin : Origin origin) :
    quote origin = origin := by
  cases hOrigin with
  | none => rfl
  | @url scheme netloc hScheme hNetloc =>
      apply quote_eq_self
      rw [List.forall_mem_append, List.forall_mem_append]
      refine ⟨⟨?_, List.all_eq_true.mp (by decide)⟩, ?_⟩
      · have hSchemes :
            (schemes.all fun s => s.all isUrlChar) = true := by
          decide +kernel
        exact List.all_eq_true.mp
          (List.all_eq_true.mp hSchemes scheme hScheme)
      · intro c hMem
        exact isUrlChar_of_netloc (hNetloc.2 c hMem)

/- The parts of a `Location`. -/
theorem redirect_eq
    (request : Request)
    (path : Str) :
    ∃ origin, Origin origin ∧
      redirect request path =
        some (origin ++ quote path ++
          quote (querySuffix request.query)) := by
  unfold redirect redirectUrl
  cases hNetloc : netloc request with
  | none =>
      refine ⟨[], .none, ?_⟩
      rw [headerValue_of_url fun c hMem =>
        isUrlChar_of_mem_quote hMem]
      dsimp only
      rw [quote_append, List.nil_append]
  | some netloc =>
      have hOrigin :=
        Origin.url (scheme_mem request) (netloc_chars hNetloc)
      refine ⟨_, hOrigin, ?_⟩
      rw [headerValue_of_url fun c hMem =>
        isUrlChar_of_mem_quote hMem]
      dsimp only
      rw [quote_append, quote_append, quote_origin hOrigin]

end Http

end MailgunRelay

------------------------------------------------------------
-- Decoded Again
------------------------------------------------------------

namespace MailgunRelay

namespace Http

open Form (escapedByte percentBytes)

/- No escape reaches over a byte that is no digit. -/
theorem escapedByte_append
    {b : UInt8}
    (hNone : toDigit b = none)
    (front rest : Bytes) :
    escapedByte (front ++ b :: rest) = escapedByte front := by
  rcases front with _ | ⟨x, _ | ⟨y, front⟩⟩
  · exact escapedByte_of_first hNone rest
  · exact hexByte_of_second hNone x
  · rfl

theorem percentBytes_append
    {b : UInt8}
    (hNone : toDigit b = none)
    (hLiteral : b ≠ 37)
    (front rest : Bytes) :
    percentBytes (front ++ b :: rest) =
      percentBytes front ++ b :: percentBytes rest := by
  fun_induction percentBytes front with
  | case1 =>
      exact Form.percentBytes_literal fun h => absurd h hLiteral
  | case2 x front byte hEscape ih =>
      have hPercent : x = 37 ∧ escapedByte front = some byte := by
        split at hEscape
        · rename_i hEq
          exact ⟨hEq, hEscape⟩
        · cases hEscape
      rcases hPercent with ⟨rfl, hFront⟩
      rcases Form.exists_of_escapedByte hFront with
        ⟨high, low, more, rfl, -⟩
      rw [List.cons_append,
        Form.percentBytes_escape
          ((escapedByte_append hNone _ rest).trans hFront)]
      exact congrArg _ ih
  | case3 x front hEscape ih =>
      rw [List.cons_append, Form.percentBytes_literal, ih]
      · rfl
      · intro hPercent
        rw [dif_pos hPercent] at hEscape
        rw [escapedByte_append hNone]
        exact hEscape

/- A letter at the end that is no digit stays there. -/
theorem getLast?_percentDecode
    {b : UInt8}
    (hAscii : b < 128)
    (hNone : toDigit b = none)
    (hLiteral : b ≠ 37)
    {path : Str}
    (hLast : path.getLast? = some (Char.ofNat b.toNat)) :
    (percentDecode path).getLast? =
      some (Char.ofNat b.toNat) := by
  rcases List.getLast?_eq_some_iff.mp hLast with ⟨front, rfl⟩
  rw [percentDecode_eq, utf8_append, utf8_cons,
    utf8EncodeChar_ofByte hAscii]
  show (fromUtf8Lossy
      (percentBytes (utf8 front ++ b :: []))).getLast? = _
  rw [percentBytes_append hNone hLiteral,
    Form.percentBytes_of_not_mem List.not_mem_nil,
    fromUtf8Lossy_append_ascii hAscii,
    fromUtf8Lossy_ascii_cons hAscii, List.getLast?_append,
    fromUtf8Lossy]
  rfl

/- Text without a `%` is decoded to itself. -/
theorem percentDecode_of_not_mem
    {path : Str}
    (hNone : '%' ∉ path) :
    percentDecode path = path := by
  rw [percentDecode_eq, Form.percentBytes_of_not_mem,
    fromUtf8Lossy_utf8]
  intro hMem
  have hPercent := mem_of_mem_utf8 (by decide) hMem
  exact hNone hPercent

/- A path of a route is decoded to none with slashes. -/
theorem not_slash_of_decoded
    {path : Str}
    {route : Route}
    (hNames : Names path route) :
    (percentDecode path).getLast? ≠ some '/' := by
  rcases getLast?_of_names hNames with hLast | hLast | hLast
  · rw [@getLast?_percentDecode 104 (by decide) (by decide)
      (by decide) path hLast]
    decide
  · rw [@getLast?_percentDecode 115 (by decide) (by decide)
      (by decide) path hLast]
    decide
  · rw [@getLast?_percentDecode 10 (by decide) (by decide)
      (by decide) path hLast]
    decide

/- The path of a route starts with one slash. -/
theorem quote_of_names
    {path : Str}
    {route : Route}
    (hNames : Names path route) :
    ∃ rest, quote path = '/' :: rest ∧
      rest.head? ≠ some '/' := by
  have hStart : ∃ c rest, path = ['/', c] ++ rest ∧
      quote ['/', c] = ['/', c] ∧ c ≠ '/' := by
    rcases hNames.2 with rfl | rfl
    all_goals
      cases route with
      | health => exact ⟨'h', _, rfl, by decide +kernel, by decide⟩
      | messages domain =>
          exact ⟨'v', _, rfl, by decide +kernel, by decide⟩
  rcases hStart with ⟨c, rest, rfl, hQuote, hOther⟩
  rw [quote_append, hQuote]
  refine ⟨_, rfl, ?_⟩
  intro hHead
  exact hOther (Option.some.inj hHead)

end Http

end MailgunRelay

------------------------------------------------------------
-- Redirects
------------------------------------------------------------

namespace MailgunRelay

namespace Http

/-
  A redirect strips slashes from the path of a route.  Its
  `Location` is that path, quoted, behind an origin of the
  four schemes or behind none, and before the query.  The
  path starts with one slash only.  Whoever requests it is
  not redirected again, and if there was no `%` in it, it is
  decoded to the path of the same route.
-/
theorem redirect_sound
    (maxBodyBytes : I64)
    (request : Request)
    (location : Option Str)
    (hRedirect :
      router maxBodyBytes request = .redirect location) :
    ∃ route stripped n origin,
      Names stripped route ∧
        percentDecode request.path =
          stripped ++ List.replicate (n + 1) '/' ∧
        Origin origin ∧
        location =
          some (origin ++ quote stripped ++
            quote (querySuffix request.query)) ∧
        (∃ rest, quote stripped = '/' :: rest ∧
          rest.head? ≠ some '/') ∧
        ∀ next : Request, next.path = quote stripped →
          (∀ location',
            router maxBodyBytes next ≠ .redirect location') ∧
            ('%' ∉ stripped →
              Names (percentDecode next.path) route) := by
  have hAnswer := answers_router maxBodyBytes request
  rw [hRedirect] at hAnswer
  cases hAnswer with
  | @redirect route stripped n hShort hNames hPath =>
      rcases redirect_eq request stripped with
        ⟨origin, hOrigin, hLocation⟩
      refine
        ⟨route, stripped, n, origin, hNames, hPath, hOrigin,
          hLocation, quote_of_names hNames, ?_⟩
      intro next hNext
      have hDecoded : percentDecode next.path =
          percentDecode stripped := by
        rw [hNext]
        exact decode_quote stripped
      constructor
      · intro location' hAgain
        have hOther := answers_router maxBodyBytes next
        rw [hAgain, hDecoded] at hOther
        cases hOther with
        | @redirect route' stripped' n' hShort' hNames' hPath' =>
            apply not_slash_of_decoded hNames
            rw [hPath', List.replicate_succ',
              ← List.append_assoc, List.getLast?_append]
            rfl
      · intro hPercent
        rw [hDecoded, percentDecode_of_not_mem hPercent]
        exact hNames

/- The path of the health with a slash, to a host. -/
theorem redirect_sound_health :
    let request : Request :=
      { method := "POST".toList
        path := "/health/".toList
        query := some "a=b".toList
        headers := [("host".toList, utf8 "h:8085".toList)]
        connection := none
        body := [] }
    ∃ origin stripped, Origin origin ∧
      router ⟨100, by decide⟩ request =
        .redirect
          (some (origin ++ quote stripped ++
            quote "?a=b".toList)) := by
  intro request
  have hShort : ¬ TooLong ⟨100, by decide⟩ request := by
    rintro ⟨value, hHeader, -⟩
    cases hHeader
  have hPath : percentDecode request.path =
      "/health".toList ++ List.replicate (0 + 1) '/' :=
    percentDecode_of_not_mem (by decide)
  have hNames : Names "/health".toList .health :=
    ⟨trivial, .inl rfl⟩
  have hRouter :=
    router_of_answers (.redirect hShort hNames hPath)
  rcases redirect_sound _ request _ hRouter with
    ⟨route, stripped, n, origin, -, -, hOrigin, hLocation, -⟩
  refine ⟨origin, stripped, hOrigin, ?_⟩
  rw [hRouter, hLocation]
  rfl

end Http

end MailgunRelay
