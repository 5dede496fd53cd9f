import NetworkOs.Lru.Urls

/-! URLs put together from a host and a path, and what `ExtractHostAndPath` makes of them. -/
namespace NetworkOs.Lru
open Regex

inductive Form where
  | bare | http | https
deriving DecidableEq, Repr

def Form.scheme : Form → Str
  | .bare => []
  | .http => ascii "http://".toList
  | .https => ascii "https://".toList

def compose (form : Form) (host path : Str) : Str := form.scheme ++ (host ++ path)

/-- Letters, digits, dots and hyphens. -/
def hostCharacter (c : UInt8) : Bool :=
  ('a'.toUInt8 ≤ c && c ≤ 'z'.toUInt8) || ('A'.toUInt8 ≤ c && c ≤ 'Z'.toUInt8) ||
    ('0'.toUInt8 ≤ c && c ≤ '9'.toUInt8) || c == '.'.toUInt8 || c == '-'.toUInt8

structure Parts (host path : Str) : Prop where
  named : host ≠ []
  plain : ∀ c ∈ host, hostCharacter c = true
  rooted : ∀ c ∈ path.head?, c = slash
  feed : '\n'.toUInt8 ∉ path
  ret : '\r'.toUInt8 ∉ path

/-- `path` after the match. -/
def rootOf (path : Str) : Str := if path = [] then [slash] else path

section Splitting
variable {host path : Str}

theorem ne_slash_of_hostCharacter {c : UInt8} (h : hostCharacter c = true) : c ≠ slash := by
  rintro rfl
  exact absurd h (by decide)

theorem ne_colon_of_hostCharacter {c : UInt8} (h : hostCharacter c = true) : c ≠ ':'.toUInt8 := by
  rintro rfl
  exact absurd h (by decide)

/-- A text without slashes in front of one is what the host group takes. -/
theorem split_at_slash {u w : Str} (free : slash ∉ u) (rooted : ∀ c ∈ w.head?, c = slash) :
    (u ++ w).takeWhile (· != slash) = u ∧ (u ++ w).dropWhile (· != slash) = w := by
  have before : ∀ c ∈ u, (c != slash) = true := fun c member =>
    bne_iff_ne.mpr fun same => free (same ▸ member)
  rw [List.takeWhile_append_of_pos before, List.dropWhile_append_of_pos before]
  cases w with
  | nil => simp
  | cons c w =>
      obtain rfl : c = slash := rooted c rfl
      simp

theorem hostAndPath_append {u w : Str} (some_ : u ≠ []) (free : slash ∉ u) (rooted : ∀ c ∈ w.head?, c = slash)
    (feed : '\n'.toUInt8 ∉ w) (ret : '\r'.toUInt8 ∉ w) : hostAndPath (u ++ w) = some (u, rootOf w) := by
  obtain ⟨taken, left⟩ := split_at_slash free rooted
  rw [hostAndPath, taken, left, if_neg (by simp [some_, feed, ret])]
  rfl

theorem Parts.free (parts : Parts host path) : slash ∉ host := fun member =>
  ne_slash_of_hostCharacter (parts.plain _ member) rfl

theorem Parts.whole (parts : Parts host path) : hostAndPath (host ++ path) = some (host, rootOf path) :=
  hostAndPath_append parts.named parts.free parts.rooted parts.feed parts.ret

/-- What stands before the slashes of a scheme. -/
theorem scheme_colon {s : Str} (member : s ∈ schemes) :
    ∃ u, s = u ++ [slash, slash] ∧ slash ∉ u ∧ ':'.toUInt8 ∈ u ∧ u ≠ ascii "https:".toList := by
  rcases List.mem_cons.mp member with rfl | last
  · exact ⟨ascii "http:".toList, rfl, by decide, by decide, by decide⟩
  · obtain rfl := List.mem_singleton.mp last
    exact ⟨ascii "htt:".toList, rfl, by decide, by decide, by decide⟩

/-- The text before the first slash tells that a URL has no scheme. -/
theorem unschemed_of_takeWhile {url u : Str} (taken : url.takeWhile (· != slash) = u)
    (other : ':'.toUInt8 ∉ u ∨ u = ascii "https:".toList) : ¬ ∃ s ∈ schemes, ∃ w, url = s ++ w := by
  rintro ⟨s, member, w, rfl⟩
  obtain ⟨v, rfl, free, colon, apart⟩ := scheme_colon member
  have same : v = u := by
    calc v = (v ++ (slash :: slash :: w)).takeWhile (· != slash) := (split_at_slash free (by simp)).1.symm
      _ = (v ++ [slash, slash] ++ w).takeWhile (· != slash) := by simp
      _ = u := taken
  rcases other with free_ | rfl
  · exact free_ (same ▸ colon)
  · exact apart same

theorem extract_bare (parts : Parts host path) :
    extractHostAndPath (compose .bare host path) = some (host, rootOf path) := by
  have taken := (split_at_slash parts.free parts.rooted).1
  have plain : ':'.toUInt8 ∉ host := fun member => ne_colon_of_hostCharacter (parts.plain _ member) rfl
  exact (extractHostAndPath_bare (unschemed_of_takeWhile taken (.inl plain))).trans parts.whole

theorem extract_http (parts : Parts host path) :
    extractHostAndPath (compose .http host path) = some (host, rootOf path) := by
  have composed : compose .http host path = ascii "http://".toList ++ (host ++ path) := rfl
  rw [extractHostAndPath_behind List.mem_cons_self composed, parts.whole, Option.some_or]

/-- The pattern has no `https`: its letters go to the host, and its slashes begin the path. -/
theorem extract_https (parts : Parts host path) : extractHostAndPath (compose .https host path) =
    some (ascii "https:".toList, slash :: slash :: (host ++ path)) := by
  have composed : compose .https host path = ascii "https:".toList ++ (slash :: slash :: (host ++ path)) := rfl
  have free : slash ∉ ascii "https:".toList := by decide
  have taken : (compose .https host path).takeWhile (· != slash) = ascii "https:".toList := by
    rw [composed]
    exact (split_at_slash free (by simp)).1
  have within : ∀ c ∈ slash :: slash :: (host ++ path), c = slash ∨ hostCharacter c = true ∨ c ∈ path := by
    simp only [List.mem_cons, List.mem_append]
    rintro c (rfl | rfl | member | member)
    · exact .inl rfl
    · exact .inl rfl
    · exact .inr (.inl (parts.plain c member))
    · exact .inr (.inr member)
  rw [extractHostAndPath_bare (unschemed_of_takeWhile taken (.inr rfl)), composed]
  refine hostAndPath_append (by decide) free (by simp) (fun member => ?_) fun member => ?_
  · rcases within _ member with same | plain | member
    · exact absurd same (by decide)
    · exact absurd plain (by decide)
    · exact parts.feed member
  · rcases within _ member with same | plain | member
    · exact absurd same (by decide)
    · exact absurd plain (by decide)
    · exact parts.ret member

end Splitting

/-- Splitting undoes the composition of a URL except behind `https://`. -/
theorem round_trip_iff {host path : Str} (parts : Parts host path) (form : Form) (before : Str) :
    matchHostAndPath before (compose form host path) = some (host, if path = [] then [slash] else path) ↔
      form ≠ .https := by
  rw [matchHostAndPath_eq]
  cases form with
  | bare => exact iff_of_true (extract_bare parts) (by decide)
  | http => exact iff_of_true (extract_http parts) (by decide)
  | https =>
      rw [extract_https parts]
      refine iff_of_false (fun same => ?_) (by simp)
      have host_ : ascii "https:".toList = host := (Prod.mk.inj (Option.some.inj same)).1
      exact ne_colon_of_hostCharacter (parts.plain ':'.toUInt8 (host_ ▸ by decide)) rfl

theorem parts_local : Parts (ascii ['a']) (ascii ['/', 'x']) :=
  ⟨by decide, List.forall_mem_singleton.mpr (by decide), fun _ first => (Option.some.inj first).symm,
    by decide, by decide⟩

theorem round_trip_iff_local :
    matchHostAndPath [] (compose .http (ascii ['a']) (ascii ['/', 'x'])) =
        some (ascii ['a'], if ascii ['/', 'x'] = [] then [slash] else ascii ['/', 'x']) ↔
      Form.http ≠ .https :=
  round_trip_iff parts_local .http []

/-- `https://a/x` is split into the host `https:` and the path `//a/x`. -/
theorem https_round_trip_fails :
    ¬ ∀ (host path : Str) (form : Form) (before : Str), Parts host path →
      matchHostAndPath before (compose form host path) = some (host, if path = [] then [slash] else path) := by
  intro claim
  have whole := claim _ _ .https [] parts_local
  rw [matchHostAndPath_eq, extract_https parts_local] at whole
  exact absurd whole (by decide)

end NetworkOs.Lru
