import NetworkOs.Lru.Refinement

/-! The main loop around the cache: a URL is split into host and path, looked up,
and fetched on a miss. A fetch reports its failures through the page it returns. -/
namespace NetworkOs.Lru
open LRUCache

/-- What the system calls of one fetch return. -/
structure Connection where
  resolved : Bool
  opened : Bool
  connected : Bool
  sent : Bool
  /-- The bytes of each `recv` with a positive count, into a buffer of 4095 bytes. -/
  chunks : List Str
  /-- The last `recv` returns 0, not -1. -/
  ended : Bool
  sized : ∀ chunk ∈ chunks, 1 ≤ chunk.length ∧ chunk.length ≤ 4095

/-- The other end of a fetch, by host name and request text. -/
abbrev Network := Str → Str → Connection

/-- Some call of the fetch fails. -/
def Connection.Failed (connection : Connection) : Prop :=
  connection.resolved = false ∨ connection.opened = false ∨ connection.connected = false ∨
    connection.sent = false ∨ connection.ended = false

/-- The string "1", returned when nothing could be sent. -/
def one : Str := ascii ['1']

def httpRequest (host path : Str) : Str :=
  ascii "GET ".toList ++ path ++ ascii " HTTP/1.1\r\n".toList ++ ascii "Host: ".toList ++ host ++
    ascii "\r\n".toList ++ ascii "Connection: close\r\n\r\n".toList

/-- `s += buffer` appends the bytes before the first NUL. -/
def upToNul (chunk : Str) : Str := chunk.takeWhile (· != 0)

def sendHttpGetRequest (net : Network) (host path : Str) : Str :=
  let connection := net host (httpRequest host path)
  if !connection.resolved then one
  else if !connection.opened then one
  else if !connection.connected then one
  else if !connection.sent then one
  -- a `recv` that returns -1 is reported on `cerr` only
  else connection.chunks.flatMap upToNul

def slash : UInt8 := '/'.toUInt8

/-- `([^/]+)(/.*)?$`, where `.` is no line end. -/
def hostAndPath (text : Str) : Option (Str × Str) :=
  let host := text.takeWhile (· != slash)
  let path := text.dropWhile (· != slash)
  if host = [] ∨ '\n'.toUInt8 ∈ path ∨ '\r'.toUInt8 ∈ path then none
  else some (host, if path = [] then [slash] else path)

/-- The text behind `http?://`. -/
def afterScheme (url : Str) : Option Str :=
  (ascii "http://".toList).isPrefixOf? url <|> (ascii "htt://".toList).isPrefixOf? url

/-- `ExtractHostAndPath`: the scheme is matched if the rest then matches. -/
def extractHostAndPath (url : Str) : Option (Str × Str) :=
  ((afterScheme url).bind hostAndPath) <|> hostAndPath url

/-- The loop's cache and the pages fetched so far. -/
structure Main where
  cache : LRUCache
  fetched : List Str

namespace Main

def start (capacity : Int) : Main := ⟨LRUCache.new capacity, []⟩

/-- The handling of one URL, with the response a fetch would return. -/
def serve (url response : Str) (s : Main) : Option (Str × Main) := do
  let (gt, c) ← s.cache.get url
  if gt = minusOne then
    let c ← c.put url response
    return (response, ⟨c, s.fetched ++ [response]⟩)
  else
    return (gt, ⟨c, s.fetched⟩)

inductive Reply where
  | exiting
  | error
  | page (content : Str)
deriving DecidableEq

/-- One turn of the loop, on the word read. -/
def turn (net : Network) (word : Str) (s : Main) : Option (Reply × Main) :=
  if word = ascii "exit".toList then some (.exiting, s)
  else
    match extractHostAndPath word with
    | none => some (.error, s)
    | some (host, path) =>
        (s.serve word (sendHttpGetRequest net host path)).map fun r => (.page r.1, r.2)

/-- The log of fetches aside, a URL is served by the cache alone. -/
theorem serve_cache (url response : Str) (s : Main) :
    (s.serve url response).map (fun r => (r.1, r.2.cache)) = s.cache.serve url response := by
  simp only [serve, LRUCache.serve, Option.bind_eq_bind, Option.map_bind]
  refine Option.bind_congr fun r _ => ?_
  simp only [Function.comp_apply]
  split_ifs
  · cases r.2.put url response <;> rfl
  · rfl

section Serve
variable {s : Main} {url response : Str}

theorem serve_miss {c c' : LRUCache} (got : s.cache.get url = some (minusOne, c))
    (done : c.put url response = some c') :
    s.serve url response = some (response, ⟨c', s.fetched ++ [response]⟩) := by
  simp only [serve, got, done, Option.bind_eq_bind, Option.bind_some, if_true, Option.pure_def]

theorem serve_hit {ans : Str} {c : LRUCache} (got : s.cache.get url = some (ans, c)) (real : ans ≠ minusOne) :
    s.serve url response = some (ans, ⟨c, s.fetched⟩) := by
  simp only [serve, got, Option.bind_eq_bind, Option.bind_some, if_neg real, Option.pure_def]

end Serve

/-- The turn leaves the cached pages and their order as they were. -/
def KeepsCache (net : Network) (word : Str) (s : Main) : Prop :=
  ∃ reply t, s.turn net word = some (reply, t) ∧
    (∀ key, (t.cache.m.lookup key).map t.cache.val = (s.cache.m.lookup key).map s.cache.val) ∧
    ∀ ps, s.cache.Linked ps → ∃ qs, t.cache.Linked qs ∧ t.cache.entries qs = s.cache.entries ps

end Main

/-- The map holds the key put last, whatever the cache was before. -/
theorem put_lookup {c c' : LRUCache} {k v : Str} (done : c.put k v = some c') :
    ∃ p, c'.m.lookup k = some p := by
  simp only [put_eq, Option.bind_eq_some_iff] at done
  obtain ⟨_, _, c₂, _, mapped⟩ := done
  simp only [mapFirst, Option.bind_eq_bind, Option.bind_eq_some_iff, Option.pure_def, Option.some.injEq] at mapped
  obtain ⟨first, _, rfl⟩ := mapped
  exact ⟨first, AList.lookup_insert _⟩

section Failures
variable {s : Main} {net : Network} {url host path : Str}

/-- A URL that is not cached is put into the cache with what its fetch returned. -/
theorem turn_miss (going : url ≠ ascii "exit".toList) (split : extractHostAndPath url = some (host, path))
    (uncached : s.cache.m.lookup url = none) {reply : Main.Reply} {t : Main}
    (turned : s.turn net url = some (reply, t)) :
    reply = .page (sendHttpGetRequest net host path) ∧
      s.cache.put url (sendHttpGetRequest net host path) = some t.cache ∧
      t.fetched = s.fetched ++ [sendHttpGetRequest net host path] := by
  simp only [Main.turn, if_neg going, split, Main.serve, get_miss uncached, Option.bind_eq_bind, Option.bind_some,
    if_true, Option.pure_def, Option.map_bind, Option.map_some, Function.comp_def, Option.bind_eq_some_iff,
    Option.some.injEq, Prod.mk.injEq] at turned
  obtain ⟨c, done, rfl, rfl⟩ := turned
  exact ⟨rfl, done, rfl⟩

/-- However the fetch of a page that is not cached fails, the cache is changed. -/
theorem failed_fetch_changes_cache (going : url ≠ ascii "exit".toList)
    (split : extractHostAndPath url = some (host, path)) (uncached : s.cache.m.lookup url = none)
    (_failed : (net host (httpRequest host path)).Failed) : ¬ s.KeepsCache net url := by
  rintro ⟨reply, t, turned, pages, _⟩
  obtain ⟨_, done, _⟩ := turn_miss going split uncached turned
  obtain ⟨p, held⟩ := put_lookup done
  have kept := pages url
  rw [held, uncached] at kept
  exact absurd kept (by simp)

end Failures

/-- A connection that fails to resolve its host. -/
def unresolved : Connection := ⟨false, true, true, true, [], true, by simp⟩

/-- A connection broken off after the byte of `x`. -/
def broken : Connection := ⟨true, true, true, true, [ascii ['x']], false, by decide⟩

theorem failed_fetch_changes_cache_broken :
    ¬ (Main.start 2).KeepsCache (fun _ _ => broken) (ascii ['a']) := by
  have split : extractHostAndPath (ascii ['a']) = some (ascii ['a'], [slash]) := by decide
  exact failed_fetch_changes_cache (by decide) split rfl (by simp [Connection.Failed, broken])

/-- The error marker is cached as a page. -/
theorem failed_fetch_cached :
    ¬ ∀ (s : Main) (net : Network) (url host path : Str), url ≠ ascii "exit".toList →
      extractHostAndPath url = some (host, path) → s.cache.m.lookup url = none →
      (net host (httpRequest host path)).Failed → s.KeepsCache net url := by
  intro claim
  have split : extractHostAndPath (ascii ['a']) = some (ascii ['a'], [slash]) := by decide
  obtain ⟨reply, t, turned, pages, _⟩ := claim (Main.start 2) (fun _ _ => unresolved) (ascii ['a']) (ascii ['a'])
    [slash] (by decide) split rfl (by simp [Connection.Failed, unresolved])
  obtain ⟨p, held⟩ := put_lookup (turn_miss (by decide) split rfl turned).2.1
  have kept := pages (ascii ['a'])
  rw [held] at kept
  exact absurd kept (by simp [Main.start, LRUCache.new])

/-- No call fails, and the chunks received are the `bytes` that the server sends. -/
structure Connection.Delivers (connection : Connection) (bytes : Str) : Prop where
  resolved : connection.resolved = true
  opened : connection.opened = true
  connected : connection.connected = true
  sent : connection.sent = true
  ended : connection.ended = true
  chunks : connection.chunks.flatten = bytes

section Receiving
variable {net : Network} {host path bytes : Str}

theorem upToNul_eq_self_iff (chunk : Str) : upToNul chunk = chunk ↔ 0 ∉ chunk := by
  simp only [upToNul, List.takeWhile_eq_self_iff, bne_iff_ne]
  exact ⟨fun all member => all 0 member rfl, fun free b member same => free (same ▸ member)⟩

theorem length_upToNul_le (chunk : Str) : (upToNul chunk).length ≤ chunk.length :=
  (List.takeWhile_prefix _).length_le

theorem length_flatMap_upToNul_le (chunks : List Str) :
    (chunks.flatMap upToNul).length ≤ chunks.flatten.length := by
  induction chunks with
  | nil => exact le_rfl
  | cons chunk rest ih =>
      simp only [List.flatMap_cons, List.flatten_cons, List.length_append]
      exact Nat.add_le_add (length_upToNul_le chunk) ih

/-- A byte that one chunk loses is not made up for by the others. -/
theorem flatMap_upToNul_iff (chunks : List Str) :
    chunks.flatMap upToNul = chunks.flatten ↔ ∀ chunk ∈ chunks, 0 ∉ chunk := by
  induction chunks with
  | nil => simp
  | cons chunk rest ih =>
      rw [List.flatMap_cons, List.flatten_cons, List.forall_mem_cons]
      constructor
      · intro same
        have total := congrArg List.length same
        rw [List.length_append, List.length_append] at total
        have first := length_upToNul_le chunk
        have others := length_flatMap_upToNul_le rest
        obtain ⟨kept, same⟩ := List.append_inj same (by omega)
        exact ⟨(upToNul_eq_self_iff chunk).mp kept, ih.mp same⟩
      · rintro ⟨free, others⟩
        rw [(upToNul_eq_self_iff chunk).mpr free, ih.mpr others]

/-- The page is the bytes the server sent exactly when none of them is NUL, however they
are split into chunks. -/
theorem received_iff_no_nul (delivers : (net host (httpRequest host path)).Delivers bytes) :
    sendHttpGetRequest net host path = bytes ↔ 0 ∉ bytes := by
  simp only [sendHttpGetRequest, delivers.resolved, delivers.opened, delivers.connected, delivers.sent,
    Bool.not_true, Bool.false_eq_true, if_false]
  rw [← delivers.chunks, flatMap_upToNul_iff]
  simp only [List.mem_flatten, not_exists, not_and]

end Receiving

/-- A connection over which these chunks arrive. -/
def received (chunks : List Str) (sized : ∀ chunk ∈ chunks, 1 ≤ chunk.length ∧ chunk.length ≤ 4095) : Connection :=
  ⟨true, true, true, true, chunks, true, sized⟩

theorem received_iff_no_nul_two_chunks :
    sendHttpGetRequest (fun _ _ => received [[97], [98, 99]] (by decide)) [] [] = [97, 98, 99] :=
  (received_iff_no_nul ⟨rfl, rfl, rfl, rfl, rfl, rfl⟩).mpr (by decide)

/-- Behind a NUL the rest of its chunk is lost, and only that. -/
theorem nul_cuts_chunk :
    ¬ ∀ (net : Network) (host path bytes : Str), (net host (httpRequest host path)).Delivers bytes →
      sendHttpGetRequest net host path = bytes := by
  intro claim
  have page := claim (fun _ _ => received [[97, 0, 98]] (by decide)) [] [] [97, 0, 98] ⟨rfl, rfl, rfl, rfl, rfl, rfl⟩
  exact absurd page (by decide)

end NetworkOs.Lru
