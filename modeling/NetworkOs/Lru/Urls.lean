import NetworkOs.Library.Regex
import NetworkOs.Lru.Requests

/-! The pattern of `ExtractHostAndPath`, run by the backtracking matcher. Its optional
scheme is retracted where the text behind it has no host. -/
namespace NetworkOs.Lru
open Regex Pattern

/-- The characters that `.` matches. -/
def dot (c : UInt8) : Bool := c != '\n'.toUInt8 && c != '\r'.toUInt8

/-- `http?://` -/
def scheme : Pattern UInt8 :=
  seq (literal 'h'.toUInt8 (ascii "tt".toList))
    (seq (optional (literal 'p'.toUInt8 [])) (literal ':'.toUInt8 (ascii "//".toList)))

/-- `(/.*)?$` -/
def pathPattern : Pattern UInt8 := seq (optional (group 3 (seq (literal slash []) (many (oneOf dot))))) finish

/-- `([^/]+)(/.*)?$` -/
def hostPattern : Pattern UInt8 := seq (group 2 (atLeastOne (oneOf (· != slash)))) pathPattern

/-- `^(http?://)?([^/]+)(/.*)?$` -/
def urlPattern : Pattern UInt8 := seq start (seq (optional (group 1 scheme)) hostPattern)

abbrev Groups := Nat → Option Str

/-- What `ExtractHostAndPath` reads from the groups. -/
def answer (host : Str) (match_ : Groups) : Str × Str := ((match_ 2).getD host, (match_ 3).getD [slash])

/-- `ExtractHostAndPath`, where `host` is what the caller's variable holds before: the
values of `host` and `path` after a match. -/
def matchHostAndPath (host url : Str) : Option (Str × Str) :=
  (fullMatch urlPattern url).map (answer host)

/-- The end of a match: nothing of the text is left. -/
def complete (y : Position UInt8) : Option Groups := if y.rest.isEmpty then some y.groups else none

section Matching
variable {x : Position UInt8} {k : Position UInt8 → Option Groups} {u w : Str}

theorem complete_eq_none (more : x.rest ≠ []) : complete x = none := by
  rw [complete, if_neg]
  simpa using more

theorem run_finish : finish.run complete x = complete x := by
  unfold complete
  rw [run]
  split_ifs <;> rfl

/-- Where no slash follows the path is left out. -/
theorem run_pathPattern_none (other : ∀ c ∈ x.rest.head?, c ≠ slash) : pathPattern.run complete x = complete x := by
  rw [pathPattern, run_seq, run_optional, run_group, run_seq, run_literal_none, Option.none_or, run_finish]
  rintro ⟨w, rest⟩
  exact other slash (by rw [← Position.rest_clear, ← rest]; rfl) rfl

/-- A path is taken up to the next line end, so it matches if there is none. -/
theorem run_pathPattern (rest : x.rest = slash :: w) : pathPattern.run complete x =
    if w.all dot then some (Function.update (x.clear [3]).groups 3 (some (slash :: w))) else none := by
  have more : complete x = none := complete_eq_none (by simp [rest])
  have taken : (x.clear [3]).rest = [slash] ++ w := rest
  rw [pathPattern, run_seq, run_optional, run_finish, more, Option.or_none, run_group, run_seq]
  change (literal slash []).run _ (x.clear [3]) = _
  rw [run_literal taken, run_many_oneOf]
  · have shorter : (w.dropWhile dot).length < x.rest.length := by
      rw [rest, List.length_cons]
      exact Nat.lt_succ_of_le (List.dropWhile_sublist dot).length_le
    simp only [Position.advance_advance, Position.rest_advance, Position.rest_capture, shorter, if_true,
      run_finish, Position.taken_advance, Position.taken_clear, List.drop_left]
    by_cases plain : w.all dot = true
    · have all : w.takeWhile dot = w := List.takeWhile_eq_self_iff.mpr (List.all_eq_true.mp plain)
      have none_ : w.dropWhile dot = [] := List.dropWhile_eq_nil_iff.mpr (List.all_eq_true.mp plain)
      rw [if_pos plain, all, none_]
      rfl
    · rw [if_neg plain]
      refine complete_eq_none fun none_ => plain (List.all_eq_true.mpr ?_)
      exact List.dropWhile_eq_nil_iff.mp none_
  · intro y c first _
    have left : (y.capture 3 (y.taken.drop x.taken.length)).rest ≠ [] := by
      rw [Position.rest_capture]
      exact List.ne_nil_of_mem (List.mem_of_mem_head? first)
    rw [run_finish]
    exact (ite_eq_right_iff.mpr fun _ => complete_eq_none left)

theorem all_dot_iff (q : Str) :
    q.all dot = true ↔ '\n'.toUInt8 ∉ slash :: q ∧ '\r'.toUInt8 ∉ slash :: q := by
  have feed : '\n'.toUInt8 ≠ slash := by decide
  have ret : '\r'.toUInt8 ≠ slash := by decide
  simp only [List.all_eq_true, dot, Bool.and_eq_true, bne_iff_ne, List.mem_cons, feed, ret, false_or]
  constructor
  · exact fun all => ⟨fun member => (all _ member).1 rfl, fun member => (all _ member).2 rfl⟩
  · rintro ⟨noFeed, noRet⟩ c member
    exact ⟨fun same => noFeed (same ▸ member), fun same => noRet (same ▸ member)⟩

theorem host_eq_nil_iff (rest : Str) : rest.takeWhile (· != slash) = [] ↔ ∀ c ∈ rest.head?, c = slash := by
  cases rest with
  | nil => simp
  | cons c w => by_cases same : c = slash <;> simp [same]

theorem head_of_path {rest q : Str} {c : UInt8} (path : rest.dropWhile (· != slash) = c :: q) : c = slash := by
  have first := List.head?_dropWhile_not (· != slash) rest
  rw [path] at first
  simpa using first

/-- A host is taken up to the next slash, so the path begins there. -/
theorem run_hostPattern (unset : x.groups 3 = none) (host : Str) :
    (hostPattern.run complete x).map (answer host) = hostAndPath x.rest := by
  have stay : ∀ (y : Position UInt8) (c : UInt8), y.rest.head? = some c → (c != slash) = true →
      pathPattern.run complete (y.capture 2 (y.taken.drop x.taken.length)) = none := by
    intro y c first other
    rw [run_pathPattern_none, complete_eq_none]
    · exact List.ne_nil_of_mem (List.mem_of_mem_head? first)
    · intro d head
      rw [Position.rest_capture, first] at head
      exact Option.some.inj head ▸ bne_iff_ne.mp other
  rw [hostPattern, run_seq, run_group]
  by_cases empty : x.rest.takeWhile (· != slash) = []
  · have stop : ∀ c ∈ x.rest.head?, (c != slash) = false := by
      intro c first
      simp [(host_eq_nil_iff x.rest).mp empty c first]
    rw [run_atLeastOne_none stop, hostAndPath, empty]
    simp
  · rw [run_atLeastOne stay empty]
    simp only [Position.taken_advance, List.drop_left]
    cases path : x.rest.dropWhile (· != slash) with
    | nil =>
        rw [run_pathPattern_none (by simp), complete, hostAndPath, path]
        simp [answer, unset, empty]
    | cons c q =>
        obtain rfl := head_of_path path
        rw [run_pathPattern (w := q) rfl, hostAndPath, path]
        by_cases plain : q.all dot = true
        · obtain ⟨feed, ret⟩ := (all_dot_iff q).mp plain
          rw [if_pos plain, if_neg (by simp [empty, feed, ret]), Option.map_some, if_neg (List.cons_ne_nil _ _)]
          simp [answer, Position.clear]
        · have line : '\n'.toUInt8 ∈ slash :: q ∨ '\r'.toUInt8 ∈ slash :: q := by
            by_contra! none_
            exact plain ((all_dot_iff q).mpr none_)
          rw [if_neg plain, if_pos (.inr line), Option.map_none]

/-- The end of the scheme, behind the letters that both spellings share. -/
theorem run_scheme_end : (seq (optional (literal 'p'.toUInt8 [])) (literal ':'.toUInt8 (ascii "//".toList))).run k x =
    if ascii "p://".toList <+: x.rest then k (x.advance (ascii "p://".toList) (x.rest.drop 4))
    else if ascii "://".toList <+: x.rest then k (x.advance (ascii "://".toList) (x.rest.drop 3))
    else none := by
  have colon : ∀ y : Position UInt8, (literal ':'.toUInt8 (ascii "//".toList)).run k y =
      if ascii "://".toList <+: y.rest then k (y.advance (ascii "://".toList) (y.rest.drop 3)) else none := by
    intro y
    split_ifs with fits
    · obtain ⟨w, rest⟩ := fits
      exact (run_literal rest.symm).trans (by rw [← rest]; rfl)
    · exact run_literal_none fits
  rw [run_seq, run_optional, colon]
  change ((literal 'p'.toUInt8 []).run _ (x.clear [])).or _ = _
  rw [Position.clear_nil]
  by_cases letter : ['p'.toUInt8] <+: x.rest
  · obtain ⟨w, rest⟩ := letter
    have apart : ¬ ascii "://".toList <+: x.rest := by
      rw [← rest]
      rintro ⟨v, same⟩
      exact absurd (List.cons.inj same).1 (by decide)
    have shorter : w.length < x.rest.length := by simp [← rest]
    have same : ascii "p://".toList <+: x.rest ↔ ascii "://".toList <+: w := by
      rw [← rest]
      exact List.prefix_append_right_inj ['p'.toUInt8]
    rw [run_literal rest.symm, if_neg apart, Option.or_none]
    rw [Position.rest_advance, if_pos shorter, colon, Position.rest_advance]
    simp only [same, Position.advance_advance]
    split_ifs
    · rw [← rest]
      rfl
    · rfl
  · have apart : ¬ ascii "p://".toList <+: x.rest := fun fits =>
      letter ((List.prefix_append ['p'.toUInt8] (ascii "://".toList)).trans fits)
    rw [run_literal_none letter, Option.none_or, if_neg apart]

/-- The two spellings of the scheme are read in one way each. -/
theorem run_scheme : scheme.run k x =
    if ascii "http://".toList <+: x.rest then k (x.advance (ascii "http://".toList) (x.rest.drop 7))
    else if ascii "htt://".toList <+: x.rest then k (x.advance (ascii "htt://".toList) (x.rest.drop 6))
    else none := by
  rw [scheme, run_seq]
  by_cases letters : ascii "htt".toList <+: x.rest
  · obtain ⟨w, rest⟩ := letters
    have http : ascii "http://".toList <+: x.rest ↔ ascii "p://".toList <+: w := by
      rw [← rest]
      exact List.prefix_append_right_inj (ascii "htt".toList)
    have htt : ascii "htt://".toList <+: x.rest ↔ ascii "://".toList <+: w := by
      rw [← rest]
      exact List.prefix_append_right_inj (ascii "htt".toList)
    have taken : x.rest = 'h'.toUInt8 :: ascii "tt".toList ++ w := rest.symm
    rw [run_literal taken, run_scheme_end]
    simp only [http, htt, Position.rest_advance, Position.advance_advance]
    rw [← rest]
    rfl
  · have http : ¬ ascii "http://".toList <+: x.rest := fun fits =>
      letters ((List.prefix_append (ascii "htt".toList) (ascii "p://".toList)).trans fits)
    have htt : ¬ ascii "htt://".toList <+: x.rest := fun fits =>
      letters ((List.prefix_append (ascii "htt".toList) (ascii "://".toList)).trans fits)
    have other : ¬ 'h'.toUInt8 :: ascii "tt".toList <+: x.rest := letters
    rw [run_literal_none other, if_neg http, if_neg htt]

theorem isPrefixOf?_eq (u w : Str) : u.isPrefixOf? w = if u <+: w then some (w.drop u.length) else none := by
  induction u generalizing w with
  | nil => simp [List.isPrefixOf?]
  | cons c u ih =>
      cases w with
      | nil => simp [List.isPrefixOf?]
      | cons d w =>
          by_cases same : c = d
          · simp [List.isPrefixOf?, ih, same, List.cons_prefix_cons]
          · simp [List.isPrefixOf?, same, List.cons_prefix_cons]

theorem afterScheme_eq (url : Str) : afterScheme url =
    if ascii "http://".toList <+: url then some (url.drop 7)
    else if ascii "htt://".toList <+: url then some (url.drop 6) else none := by
  rw [afterScheme, isPrefixOf?_eq, isPrefixOf?_eq]
  split_ifs <;> rfl

/-- Behind the scheme, or where there is none, the rest is read as host and path. -/
theorem matchHostAndPath_eq (host url : Str) : matchHostAndPath host url = extractHostAndPath url := by
  let begin_ : Position UInt8 := ⟨[], url, fun _ => none⟩
  have run_eq : fullMatch urlPattern url = (seq (optional (group 1 scheme)) hostPattern).run complete begin_ := rfl
  have scheme_eq : ((group 1 scheme).run (fun y => if y.rest.length < begin_.rest.length then
      hostPattern.run complete y else none) (begin_.clear (group 1 scheme).groups)).map (answer host) =
        (afterScheme url).bind hostAndPath := by
    have behind : ∀ (y : Position UInt8), y.groups 3 = none → y.rest.length < url.length →
        (if y.rest.length < begin_.rest.length then hostPattern.run complete y else none).map (answer host) =
          hostAndPath y.rest := by
      intro y unset shorter
      rw [if_pos shorter, run_hostPattern unset]
    rw [run_group, run_scheme, afterScheme_eq]
    change Option.map _ (if ascii "http://".toList <+: url then _ else
      if ascii "htt://".toList <+: url then _ else none) = _
    by_cases http : ascii "http://".toList <+: url
    · have length : 7 ≤ url.length := http.length_le
      rw [if_pos http, if_pos http]
      refine behind _ rfl ?_
      change (url.drop 7).length < url.length
      rw [List.length_drop]
      omega
    · rw [if_neg http, if_neg http]
      by_cases htt : ascii "htt://".toList <+: url
      · have length : 6 ≤ url.length := htt.length_le
        rw [if_pos htt, if_pos htt]
        refine behind _ rfl ?_
        change (url.drop 6).length < url.length
        rw [List.length_drop]
        omega
      · rw [if_neg htt, if_neg htt]
        rfl
  rw [matchHostAndPath, run_eq, run_seq, run_optional, Option.map_or, scheme_eq, run_hostPattern rfl]
  simp [extractHostAndPath, begin_]

end Matching

/-- The two texts that the pattern takes for a scheme. -/
def schemes : List Str := [ascii "http://".toList, ascii "htt://".toList]

/-- `rest` is `url` without its leading scheme, if one is present and followed by a
character other than a slash, and `url` itself otherwise. -/
def WithoutScheme (url rest : Str) : Prop :=
  (∃ s ∈ schemes, ∃ c w, c ≠ slash ∧ url = s ++ c :: w ∧ rest = c :: w) ∨
    (¬ ∃ s ∈ schemes, ∃ c w, c ≠ slash ∧ url = s ++ c :: w) ∧ rest = url

/-- `host` is the longest prefix of `rest` that is free of slashes, and `path` is what
remains, or "/" when nothing does. -/
structure Divided (rest host path : Str) : Prop where
  leads : host <+: rest
  free : slash ∉ host
  longest : ∀ u, u <+: rest → slash ∉ u → u.length ≤ host.length
  path : path = if rest.drop host.length = [] then [slash] else rest.drop host.length

section ClosedForm
variable {url rest : Str}

theorem afterScheme_iff : afterScheme url = some rest ↔ ∃ s ∈ schemes, url = s ++ rest := by
  rw [afterScheme_eq]
  constructor
  · intro found
    split_ifs at found with http htt
    · obtain ⟨w, rfl⟩ := http
      obtain rfl : w = rest := Option.some.inj found
      exact ⟨_, List.mem_cons_self, rfl⟩
    · obtain ⟨w, rfl⟩ := htt
      obtain rfl : w = rest := Option.some.inj found
      exact ⟨_, List.mem_cons_of_mem _ List.mem_cons_self, rfl⟩
  · rintro ⟨s, member, rfl⟩
    rcases List.mem_cons.mp member with rfl | last
    · rw [if_pos (List.prefix_append _ _)]
      rfl
    · obtain rfl := List.mem_singleton.mp last
      have other : ¬ ascii "http://".toList <+: ascii "htt://".toList ++ rest := by
        rintro ⟨v, same⟩
        have fourth := congrArg (fun l : Str => l[3]?) same
        simp only [ascii] at fourth
        exact absurd (Option.some.inj fourth) (by decide)
      rw [if_neg other, if_pos (List.prefix_append _ _)]
      rfl

theorem divided_takeWhile (rest : Str) : Divided rest (rest.takeWhile (· != slash))
    (if rest.dropWhile (· != slash) = [] then [slash] else rest.dropWhile (· != slash)) := by
  have split : rest.takeWhile (· != slash) ++ rest.dropWhile (· != slash) = rest :=
    List.takeWhile_append_dropWhile
  have remains : rest.drop (rest.takeWhile (· != slash)).length = rest.dropWhile (· != slash) := by
    calc rest.drop (rest.takeWhile (· != slash)).length
        = (rest.takeWhile (· != slash) ++ rest.dropWhile (· != slash)).drop
            (rest.takeWhile (· != slash)).length := by rw [split]
      _ = rest.dropWhile (· != slash) := by rw [List.drop_left]
  refine ⟨List.takeWhile_prefix _, fun member => ?_, fun u leads free => ?_, by rw [remains]⟩
  · simpa using List.mem_takeWhile_imp member
  · by_contra longer
    cases path : rest.dropWhile (· != slash) with
    | nil =>
        rw [path, List.append_nil] at split
        rw [split] at longer
        exact longer leads.length_le
    | cons c w =>
        obtain rfl := head_of_path path
        rw [path] at split
        have next : rest.takeWhile (· != slash) ++ [slash] <+: rest := ⟨w, by rw [List.append_assoc]; exact split⟩
        have inside := List.prefix_of_prefix_length_le next leads (by rw [List.length_append]; simp; omega)
        exact free (inside.subset (List.mem_append_right _ List.mem_cons_self))

/-- A text without line ends is divided unless it is empty or begins with a slash. -/
theorem hostAndPath_plain (feed : '\n'.toUInt8 ∉ rest) (ret : '\r'.toUInt8 ∉ rest) {c : UInt8}
    (first : rest.head? = some c) (other : c ≠ slash) :
    ∃ host path, hostAndPath rest = some (host, path) ∧ Divided rest host path := by
  refine ⟨_, _, ?_, divided_takeWhile rest⟩
  have some_ : rest.takeWhile (· != slash) ≠ [] := fun empty =>
    other ((host_eq_nil_iff rest).mp empty c first)
  have within : ∀ d ∈ rest.dropWhile (· != slash), d ∈ rest := fun d member =>
    (List.dropWhile_suffix _).subset member
  rw [hostAndPath, if_neg]
  rintro (empty | line | line)
  · exact some_ empty
  · exact feed (within _ line)
  · exact ret (within _ line)

theorem hostAndPath_none (stop : ∀ c ∈ rest.head?, c = slash) : hostAndPath rest = none := by
  rw [hostAndPath, if_pos (.inl ((host_eq_nil_iff rest).mpr stop))]

theorem extractHostAndPath_behind {s : Str} (member : s ∈ schemes) (eq : url = s ++ rest) :
    extractHostAndPath url = (hostAndPath rest).or (hostAndPath url) := by
  have found : afterScheme url = some rest := afterScheme_iff.mpr ⟨s, member, eq⟩
  simp [extractHostAndPath, found]

theorem extractHostAndPath_bare (none_ : ¬ ∃ s ∈ schemes, ∃ w, url = s ++ w) :
    extractHostAndPath url = hostAndPath url := by
  have missing : afterScheme url = none := by
    by_contra found
    obtain ⟨w, held⟩ := Option.ne_none_iff_exists'.mp found
    obtain ⟨s, member, eq⟩ := afterScheme_iff.mp held
    exact none_ ⟨s, member, w, eq⟩
  simp [extractHostAndPath, missing]

theorem head_of_scheme {s w : Str} (member : s ∈ schemes) (eq : url = s ++ w) : url.head? = some 'h'.toUInt8 := by
  rcases List.mem_cons.mp member with rfl | last
  · exact eq ▸ rfl
  · obtain rfl := List.mem_singleton.mp last
    exact eq ▸ rfl

/-- A match divides what is behind the scheme, or the whole URL where that has no host. -/
theorem extractHostAndPath_divided (feed : '\n'.toUInt8 ∉ url) (ret : '\r'.toUInt8 ∉ url) {c : UInt8}
    (first : url.head? = some c) (other : c ≠ slash) :
    ∃ host path rest, extractHostAndPath url = some (host, path) ∧ WithoutScheme url rest ∧ Divided rest host path := by
  obtain ⟨host, path, whole, divided⟩ := hostAndPath_plain feed ret first other
  by_cases behind : ∃ s ∈ schemes, ∃ c w, c ≠ slash ∧ url = s ++ c :: w
  · obtain ⟨s, member, d, w, host_, eq⟩ := behind
    have within : ∀ e ∈ d :: w, e ∈ url := fun e listed => eq ▸ List.mem_append_right _ listed
    obtain ⟨host', path', found, divided'⟩ := hostAndPath_plain (fun line => feed (within _ line))
      (fun line => ret (within _ line)) (rfl : (d :: w).head? = some d) host_
    refine ⟨host', path', d :: w, ?_, .inl ⟨s, member, d, w, host_, eq, rfl⟩, divided'⟩
    rw [extractHostAndPath_behind member eq, found, Option.or_of_isSome rfl]
  · refine ⟨host, path, url, ?_, .inr ⟨behind, rfl⟩, divided⟩
    by_cases scheme_ : ∃ s ∈ schemes, ∃ w, url = s ++ w
    · obtain ⟨s, member, w, eq⟩ := scheme_
      -- behind the scheme comes a slash or nothing, so the scheme is given back
      have none_ : hostAndPath w = none := hostAndPath_none fun d head => by
        by_contra host_
        obtain ⟨v, split⟩ := List.head?_eq_some_iff.mp head
        exact behind ⟨s, member, d, v, host_, split ▸ eq⟩
      rw [extractHostAndPath_behind member eq, none_, Option.none_or, whole]
    · rw [extractHostAndPath_bare scheme_, whole]

theorem extractHostAndPath_none (stop : ∀ c ∈ url.head?, c = slash) : extractHostAndPath url = none := by
  rw [extractHostAndPath_bare, hostAndPath_none stop]
  rintro ⟨s, member, w, eq⟩
  exact absurd (stop _ (head_of_scheme member eq)) (by decide)

end ClosedForm

/-- The match succeeds on every URL without line ends that begins with a character other
than a slash, and divides it behind its scheme. -/
theorem matchHostAndPath_closed_form {url : Str} (feed : '\n'.toUInt8 ∉ url) (ret : '\r'.toUInt8 ∉ url) (before : Str) :
    ((∃ found, matchHostAndPath before url = some found) ↔ url ≠ [] ∧ url.head? ≠ some slash) ∧
      ∀ host path, matchHostAndPath before url = some (host, path) →
        ∃ rest, WithoutScheme url rest ∧ Divided rest host path := by
  rw [matchHostAndPath_eq]
  cases first : url.head? with
  | none =>
      have empty : url = [] := List.head?_eq_none_iff.mp first
      have stop : ∀ c ∈ url.head?, c = slash := by simp [first]
      rw [extractHostAndPath_none stop]
      simp [empty]
  | some c =>
      by_cases other : c = slash
      · have stop : ∀ c ∈ url.head?, c = slash := by simp [first, other]
        rw [extractHostAndPath_none stop]
        simp [other]
      · obtain ⟨host, path, rest, found, unschemed, divided⟩ := extractHostAndPath_divided feed ret first other
        refine ⟨iff_of_true ⟨_, found⟩ ⟨fun empty => by simp [empty] at first, fun same => ?_⟩, ?_⟩
        · exact other (Option.some.inj same)
        · intro host' path' found'
          obtain ⟨rfl, rfl⟩ := Prod.mk.inj (Option.some.inj (found.symm.trans found'))
          exact ⟨rest, unschemed, divided⟩

theorem matchHostAndPath_closed_form_local : ∃ rest,
    WithoutScheme (ascii "http://a/b".toList) rest ∧ Divided rest (ascii ['a']) (ascii "/b".toList) := by
  have feed : '\n'.toUInt8 ∉ ascii "http://a/b".toList := by decide
  exact (matchHostAndPath_closed_form feed (by decide) []).2 _ _ (by decide)

end NetworkOs.Lru
