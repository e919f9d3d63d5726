import MailgunRelay.Http.Length

/-
  What the router answers.

  `Answers` says for each answer which requests get it: the
  limit comes first, then the route that the decoded path
  names, then the slashes that stand behind one.  The router
  gives the one answer that the rules allow.

  Key definitions include:
    * `MailgunRelay.Http.Names`
    * `MailgunRelay.Http.Answers`

  Key theorems include:
    * `MailgunRelay.Http.matchRoute_eq_some_iff`
    * `MailgunRelay.Http.router_eq_iff`
-/

------------------------------------------------------------
-- Paths Of Routes
------------------------------------------------------------

namespace MailgunRelay

namespace Http

/- The path of a route. -/
def Route.path : Route → Str
| .health => "/health".toList
| .messages domain =>
    "/v3/".toList ++ (domain ++ "/messages".toList)

/- A domain is one segment of the path. -/
def Route.Valid : Route → Prop
| .health => True
| .messages domain => domain ≠ [] ∧ '/' ∉ domain

/- A path of a route, with or without a final newline. -/
def Names (path : Str) (route : Route) : Prop :=
  route.Valid ∧ (path = route.path ∨ path = route.path ++ ['\n'])

/- The letters at the end of a path of a route. -/
theorem getLast?_path
    (route : Route) :
    route.path.getLast? = some 'h' ∨
      route.path.getLast? = some 's' := by
  cases route with
  | health =>
      left
      rfl
  | messages domain =>
      right
      unfold Route.path
      rw [List.getLast?_append, List.getLast?_append]
      rfl

theorem getLast?_of_names
    {path : Str}
    {route : Route}
    (hNames : Names path route) :
    path.getLast? = some 'h' ∨ path.getLast? = some 's' ∨
      path.getLast? = some '\n' := by
  rcases hNames.2 with rfl | rfl
  · rcases getLast?_path route with hLast | hLast
    · exact .inl hLast
    · exact .inr (.inl hLast)
  · right
    right
    rw [List.getLast?_append]
    rfl

theorem not_slash_of_names
    {path : Str}
    {route : Route}
    (hNames : Names path route) :
    path.getLast? ≠ some '/' := by
  rcases getLast?_of_names hNames with hLast | hLast | hLast
  all_goals
    rw [hLast]
    decide

/- No path of the messages is the one of the health. -/
theorem path_messages_ne
    (domain : Str) :
    (Route.messages domain).path ≠ "/health".toList := by
  intro hEq
  have hSecond := congrArg (fun path => path[1]?) hEq
  cases hSecond

/- What is left of a path without its newline. -/
theorem chomp_eq_iff
    {path rest : Str}
    (hRest : rest.getLast? ≠ some '\n') :
    (path.dropSuffix? ['\n']).getD path = rest ↔
      path = rest ∨ path = rest ++ ['\n'] := by
  cases hDrop : path.dropSuffix? ['\n'] with
  | none =>
      rw [Option.getD_none]
      constructor
      · exact .inl
      · rintro (rfl | rfl)
        · rfl
        · have hSome := List.dropSuffix?_eq_some_iff.mpr
            ⟨['\n'], @rfl _ (rest ++ ['\n']), beq_self_eq_true _⟩
          rw [hSome] at hDrop
          cases hDrop
  | some short =>
      rw [Option.getD_some]
      rcases List.dropSuffix?_eq_some_iff.mp hDrop with
        ⟨suffix, rfl, hSuffix⟩
      rw [eq_of_beq hSuffix]
      constructor
      · rintro rfl
        exact .inr rfl
      · rintro (rfl | hEq)
        · rw [List.getLast?_append] at hRest
          exact absurd rfl hRest
        · exact List.append_cancel_right hEq

/- The match is the path of the route, with a newline or not. -/
theorem matchRoute_eq_some_iff
    {path : Str}
    {route : Route} :
    matchRoute path = some route ↔ Names path route := by
  have hRoute : route.path.getLast? ≠ some '\n' := by
    rcases getLast?_path route with hLast | hLast
    all_goals
      rw [hLast]
      decide
  unfold Names
  rw [← chomp_eq_iff hRoute]
  unfold matchRoute
  dsimp only
  generalize (path.dropSuffix? ['\n']).getD path = rest
  by_cases hHealth : rest = "/health".toList
  · rw [if_pos hHealth, Option.some.injEq]
    constructor
    · rintro rfl
      exact ⟨trivial, hHealth⟩
    · rintro ⟨-, hPath⟩
      cases route with
      | health => rfl
      | messages domain =>
          rw [hHealth] at hPath
          exact absurd hPath.symm (path_messages_ne domain)
  · rw [if_neg hHealth, Option.bind_eq_bind,
      Option.bind_eq_some_iff]
    constructor
    · rintro ⟨front, hFront, hDomain⟩
      rw [Option.bind_eq_some_iff] at hDomain
      rcases hDomain with ⟨domain, hBack, hSome⟩
      rcases List.dropPrefix?_eq_some_iff.mp hFront with
        ⟨first, rfl, hFirst⟩
      rcases List.dropSuffix?_eq_some_iff.mp hBack with
        ⟨last, rfl, hLast⟩
      rw [Option.ite_none_right_eq_some,
        Option.some.injEq] at hSome
      rcases hSome with ⟨hValid, rfl⟩
      refine ⟨hValid, ?_⟩
      rw [eq_of_beq hFirst, eq_of_beq hLast]
      rfl
    · rintro ⟨hValid, rfl⟩
      cases route with
      | health => exact absurd rfl hHealth
      | messages domain =>
          refine ⟨domain ++ "/messages".toList, ?_, ?_⟩
          · exact List.dropPrefix?_eq_some_iff.mpr
              ⟨_, rfl, beq_self_eq_true _⟩
          · rw [Option.bind_eq_some_iff]
            refine ⟨domain, ?_, ?_⟩
            · exact List.dropSuffix?_eq_some_iff.mpr
                ⟨_, rfl, beq_self_eq_true _⟩
            · exact if_pos hValid

theorem matchRoute_eq_none_iff
    {path : Str} :
    matchRoute path = none ↔ ∀ route, ¬ Names path route := by
  rw [Option.eq_none_iff_forall_ne_some]
  apply forall_congr'
  intro route
  rw [ne_eq, matchRoute_eq_some_iff]

end Http

end MailgunRelay

------------------------------------------------------------
-- Slashes Behind A Path
------------------------------------------------------------

namespace MailgunRelay

namespace Http

/- A path and the slashes behind it. -/
theorem exists_slashes
    (path : Str) :
    ∃ n, path =
      path.rdropWhile (· == '/') ++ List.replicate n '/' := by
  refine ⟨(path.rtakeWhile (· == '/')).length, ?_⟩
  conv_lhs =>
    rw [← @List.rdropWhile_append_rtakeWhile _ (· == '/') path]
  apply congrArg
  rw [List.eq_replicate_iff]
  refine ⟨rfl, ?_⟩
  intro c hMem
  have hSlash := @List.mem_rtakeWhile_imp _ _ _ _ hMem
  exact eq_of_beq hSlash

theorem rdropWhile_slashes
    {stripped : Str}
    (hLast : stripped.getLast? ≠ some '/')
    (n : Nat) :
    (stripped ++ List.replicate n '/').rdropWhile (· == '/') =
      stripped := by
  induction n with
  | zero =>
      rw [List.replicate_zero, List.append_nil,
        List.rdropWhile_eq_self_iff]
      intro hNonempty hSlash
      apply hLast
      rw [List.getLast?_eq_some_getLast hNonempty,
        eq_of_beq hSlash]
  | succ n ih =>
      rw [List.replicate_succ', ← List.append_assoc,
        List.rdropWhile_concat_pos _ _ _ rfl, ih]

/- Only slashes make the stripped path shorter. -/
theorem byteLen_slashes
    (stripped : Str)
    (n : Nat) :
    byteLen (stripped ++ List.replicate n '/') =
      byteLen stripped + n := by
  have hAscii : ∀ c ∈ List.replicate n '/',
      isAsciiChar c = true := by
    intro c hMem
    rw [List.eq_of_mem_replicate hMem]
    rfl
  rw [← length_utf8, utf8_append, List.length_append,
    length_utf8, length_utf8, byteLen_of_ascii hAscii,
    List.length_replicate]

end Http

end MailgunRelay

------------------------------------------------------------
-- Answers
------------------------------------------------------------

namespace MailgunRelay

namespace Http

/- A declared length that is none, or above the limit. -/
def TooLong
    (maxBodyBytes : I64)
    (request : Request) : Prop :=
  ∃ value, request.header "content-length".toList = some value ∧
    ∀ n : Nat, Declares value n → maxBodyBytes.val < n

/- Which answer a request of a decoded path gets. -/
inductive Answers
    (maxBodyBytes : I64)
    (request : Request)
    (path : Str) : Answer → Prop where
  | tooLarge
      (hLong : TooLong maxBodyBytes request) :
      Answers maxBodyBytes request path
        (.json 413
          "\x7b\"message\":\"Payload Too Large\"\x7d".toList)
  | health
      (hShort : ¬ TooLong maxBodyBytes request)
      (hNames : Names path .health)
      (hMethod : request.method = "GET".toList) :
      Answers maxBodyBytes request path
        (.json 200 "\x7b\"status\":\"ok\"\x7d".toList)
  | messages
      {domain : Str}
      (hShort : ¬ TooLong maxBodyBytes request)
      (hNames : Names path (.messages domain))
      (hMethod : request.method = "POST".toList) :
      Answers maxBodyBytes request path (.messages domain)
  | notAllowed
      {route : Route}
      (hShort : ¬ TooLong maxBodyBytes request)
      (hNames : Names path route)
      (hMethod : request.method ∉ route.allowed) :
      Answers maxBodyBytes request path
        (.notAllowed (", ".toList.intercalate route.allowed))
  | redirect
      {route : Route}
      {stripped : Str}
      {n : Nat}
      (hShort : ¬ TooLong maxBodyBytes request)
      (hNames : Names stripped route)
      (hPath : path = stripped ++ List.replicate (n + 1) '/') :
      Answers maxBodyBytes request path
        (.redirect (Http.redirect request stripped))
  | notFound
      (hShort : ¬ TooLong maxBodyBytes request)
      (hNone : ∀ route stripped n, Names stripped route →
        path ≠ stripped ++ List.replicate n '/') :
      Answers maxBodyBytes request path
        (.json 404
          "\x7b\"detail\":\"Not Found\"\x7d".toList)

/- What a route answers to its method. -/
def Route.answer : Route → Answer
| .health => .json 200 "\x7b\"status\":\"ok\"\x7d".toList
| .messages domain => .messages domain

/- Behind the limit, a route is answered by its methods. -/
theorem dispatch_of_names
    {request : Request}
    {route : Route}
    (hNames : Names (percentDecode request.path) route) :
    dispatch request =
      if request.method ∈ route.allowed then
        route.answer
      else
        .notAllowed (", ".toList.intercalate route.allowed) := by
  unfold dispatch
  dsimp only
  rw [matchRoute_eq_some_iff.mpr hNames]
  dsimp only
  have hAllowed :
      route.allowed.contains request.method ↔
        request.method ∈ route.allowed :=
    List.elem_iff
  apply if_congr hAllowed _ rfl
  cases route with
  | health => rfl
  | messages domain => rfl

/- The answer behind the limit follows the rules. -/
theorem answers_dispatch
    {maxBodyBytes : I64}
    {request : Request}
    (hShort : ¬ TooLong maxBodyBytes request) :
    Answers maxBodyBytes request (percentDecode request.path)
      (dispatch request) := by
  cases hRoute : matchRoute (percentDecode request.path) with
  | some route =>
      have hNames := matchRoute_eq_some_iff.mp hRoute
      rw [dispatch_of_names hNames]
      by_cases hMethod : request.method ∈ route.allowed
      · rw [if_pos hMethod]
        cases route with
        | health =>
            exact .health hShort hNames
              (List.mem_singleton.mp hMethod)
        | messages domain =>
            exact .messages hShort hNames
              (List.mem_singleton.mp hMethod)
      · rw [if_neg hMethod]
        exact .notAllowed hShort hNames hMethod
  | none =>
      have hNone := matchRoute_eq_none_iff.mp hRoute
      unfold dispatch
      dsimp only
      rw [hRoute]
      generalize percentDecode request.path = path at hNone ⊢
      rcases exists_slashes path with ⟨n, hPath⟩
      dsimp only
      split
      · rename_i hSlashes
        rcases hSlashes with ⟨-, hShorter, hStripped⟩
        rcases Option.isSome_iff_exists.mp hStripped with
          ⟨route, hSome⟩
        have hNames := matchRoute_eq_some_iff.mp hSome
        cases n with
        | zero =>
            rw [List.replicate_zero, List.append_nil] at hPath
            rw [← hPath] at hShorter
            exact absurd rfl hShorter
        | succ n => exact .redirect hShort hNames hPath
      · rename_i hSlashes
        apply Answers.notFound hShort
        intro route stripped m hNames hEq
        apply hSlashes
        have hStripped :
            path.rdropWhile (· == '/') = stripped := by
          rw [hEq]
          exact rdropWhile_slashes (not_slash_of_names hNames) m
        rw [hStripped]
        refine ⟨?_, ?_, ?_⟩
        · rintro rfl
          rw [show stripped = [] from hStripped.symm] at hNames
          rcases getLast?_of_names hNames with h | h | h
          all_goals cases h
        · rw [hEq, byteLen_slashes]
          intro hLength
          have hZero : m = 0 := by omega
          subst hZero
          rw [List.replicate_zero, List.append_nil] at hEq
          rw [hEq] at hNone
          exact hNone route hNames
        · rw [matchRoute_eq_some_iff.mpr hNames]
          rfl

/- The slashes behind a path of a route are no path of one. -/
theorem matchRoute_slashes
    {stripped : Str}
    {n : Nat} :
    matchRoute (stripped ++ List.replicate (n + 1) '/') =
      none := by
  apply matchRoute_eq_none_iff.mpr
  intro route hNames
  apply not_slash_of_names hNames
  rw [List.replicate_succ', ← List.append_assoc,
    List.getLast?_append]
  rfl

/- The rules allow one answer, which is given. -/
theorem router_of_answers
    {maxBodyBytes : I64}
    {request : Request}
    {answer : Answer}
    (hAnswer :
      Answers maxBodyBytes request
        (percentDecode request.path) answer) :
    router maxBodyBytes request = answer := by
  have hLimit := declaresTooMuch_iff maxBodyBytes request
  have hDispatch
      (hShort : ¬ TooLong maxBodyBytes request) :
      router maxBodyBytes request = dispatch request := by
    unfold router
    rw [if_neg (mt hLimit.mp hShort)]
  cases hAnswer with
  | tooLarge hLong =>
      unfold router
      rw [if_pos (hLimit.mpr hLong)]
  | health hShort hNames hMethod =>
      rw [hDispatch hShort, dispatch_of_names hNames]
      exact if_pos (List.mem_singleton.mpr hMethod)
  | messages hShort hNames hMethod =>
      rw [hDispatch hShort, dispatch_of_names hNames]
      exact if_pos (List.mem_singleton.mpr hMethod)
  | notAllowed hShort hNames hMethod =>
      rw [hDispatch hShort, dispatch_of_names hNames]
      exact if_neg hMethod
  | @redirect route stripped n hShort hNames hPath =>
      have hLast := not_slash_of_names hNames
      rw [hDispatch hShort]
      unfold dispatch
      dsimp only
      rw [hPath, matchRoute_slashes]
      dsimp only
      rw [rdropWhile_slashes hLast, if_pos]
      refine ⟨?_, ?_, ?_⟩
      · intro hSlash
        rw [← List.nil_append ['/'], List.replicate_succ',
          ← List.append_assoc] at hSlash
        have hNil := List.append_cancel_right hSlash
        rw [(List.append_eq_nil_iff.mp hNil).1] at hNames
        rcases getLast?_of_names hNames with h | h | h
        all_goals cases h
      · rw [byteLen_slashes]
        omega
      · rw [matchRoute_eq_some_iff.mpr hNames]
        rfl
  | notFound hShort hNone =>
      have hRoute :
          matchRoute (percentDecode request.path) = none := by
        apply matchRoute_eq_none_iff.mpr
        intro route hNames
        apply hNone route _ 0 hNames
        rw [List.replicate_zero, List.append_nil]
      rw [hDispatch hShort]
      unfold dispatch
      dsimp only
      rw [hRoute]
      dsimp only
      rw [if_neg]
      rintro ⟨-, -, hStripped⟩
      rcases Option.isSome_iff_exists.mp hStripped with
        ⟨route, hSome⟩
      rcases exists_slashes (percentDecode request.path) with
        ⟨n, hPath⟩
      exact hNone route _ n (matchRoute_eq_some_iff.mp hSome)
        hPath

/- The answer that is given follows the rules. -/
theorem answers_router
    (maxBodyBytes : I64)
    (request : Request) :
    Answers maxBodyBytes request (percentDecode request.path)
      (router maxBodyBytes request) := by
  have hLimit := declaresTooMuch_iff maxBodyBytes request
  unfold router
  by_cases hLong : TooLong maxBodyBytes request
  · rw [if_pos (hLimit.mpr hLong)]
    exact .tooLarge hLong
  · rw [if_neg (mt hLimit.mp hLong)]
    exact answers_dispatch hLong

/-
  Every request gets the answer of the rules: refused for
  its declared length, whatever its path; answered, or told
  the methods, if its decoded path names a route; redirected
  if slashes follow such a path; and not found otherwise.
-/
theorem router_eq_iff
    (maxBodyBytes : I64)
    (request : Request)
    (answer : Answer) :
    router maxBodyBytes request = answer ↔
      Answers maxBodyBytes request
        (percentDecode request.path) answer := by
  constructor
  · rintro rfl
    exact answers_router maxBodyBytes request
  · exact router_of_answers

end Http

end MailgunRelay
