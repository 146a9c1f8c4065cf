import Nao.HttpClient.Definitions
import Nao.Kernel.Snprintf

/-!
# The text of an HTTP request

The client asks `snprintf` twice: with `NULL` and 0 for the length of the request, then with a
buffer for one character more. It compares the two answers with each other.

* `createRequestString_eq` — the four formats, piece by piece.
* `init_sends_nothing` — both answers are 0, so the request that is sent is always empty.
* `snprintf_measures` — when the kernel's `snprintf` measures what it would write, and what
  becomes of the two calls.
-/

namespace Nao.HttpClient

open SysLib Kernel

-- ---------------------------------------------------------------------------
-- The request
-- ---------------------------------------------------------------------------

def chars (s : String) : List Item := (lit s).map .char

/-- What is asked for: a proxy needs to know the server as well. -/
def Target.resource (t : Target) : List Item :=
  if t.useProxy then
    chars "http://" ++ [.str t.serverName]
      ++ (if t.serverPort ≠ httpDefaultPort then chars ":" ++ [.int (t.serverPort.setWidth 32)] else [])
      ++ [.str t.uri]
  else [.str t.uri]

def Target.hostLine (t : Target) : List Item :=
  if t.useProxy ∨ t.useHost then chars "Host: " ++ [.str t.serverName] ++ chars "\r\n" else []

/-- The request, with the arguments in their places. -/
def requestItems (t : Target) : List Item :=
  chars "GET " ++ t.resource ++ chars " HTTP/1.1\r\n"
    ++ chars "User-Agent: " ++ [.str clientAgent] ++ chars "\r\n" ++ chars "Accept: */*\r\n"
    ++ t.hostLine ++ chars "Connection: Close\r\n" ++ chars "\r\n"

/-- The complete request string. -/
def requestText (t : Target) : List UInt8 := completeText (requestItems t)

@[simp] theorem formatOf_chars (s : String) : formatOf (chars s) = lit s := by
  rw [formatOf, chars, List.flatMap_map]
  exact List.flatMap_pure_eq_map _ _ |>.trans (List.map_id _)

@[simp] theorem argsOf_chars (s : String) : argsOf (chars s) = [] := by
  rw [argsOf, chars, List.filterMap_map]
  exact List.filterMap_eq_nil_iff.mpr fun _ _ => rfl

/-- The lines that have a conversion in them. -/
theorem lines_eq :
    lit "GET %s HTTP/1.1\r\n" = lit "GET " ++ (lit "%s" ++ lit " HTTP/1.1\r\n")
      ∧ lit "GET http://%s%s HTTP/1.1\r\n"
          = lit "GET " ++ (lit "http://" ++ (lit "%s" ++ (lit "%s" ++ lit " HTTP/1.1\r\n")))
      ∧ lit "GET http://%s:%d%s HTTP/1.1\r\n"
          = lit "GET " ++ (lit "http://" ++ (lit "%s" ++ (lit ":" ++ (lit "%d" ++
              (lit "%s" ++ lit " HTTP/1.1\r\n")))))
      ∧ lit "User-Agent: %s\r\n" = lit "User-Agent: " ++ (lit "%s" ++ lit "\r\n")
      ∧ lit "Host: %s\r\n" = lit "Host: " ++ (lit "%s" ++ lit "\r\n") := by
  decide +kernel

theorem createRequestString_eq (t : Target) (buffer : Mem) (size : Nat) :
    httpcCreateRequestString t buffer size
      = snprintf buffer size (formatOf (requestItems t)) (argsOf (requestItems t)) := by
  obtain ⟨hGet, hProxyGet, hPortGet, hAgent, hHostLine⟩ := lines_eq
  unfold httpcCreateRequestString requestItems Target.resource Target.hostLine
  by_cases hProxy : t.useProxy
  · by_cases hPort : t.serverPort = httpDefaultPort
    · simp [hProxy, hPort, req11Proxy, hProxyGet, hAgent, hHostLine, Item.format, Item.arg]
    · simp [hProxy, hPort, req11ProxyPort, hPortGet, hAgent, hHostLine, Item.format, Item.arg]
  · by_cases hHost : t.useHost
    · simp [hProxy, hHost, req11Host, hGet, hAgent, hHostLine, Item.format, Item.arg]
    · simp [hProxy, hHost, req11, hGet, hAgent, Item.format, Item.arg]

/-- No character of the formats begins a conversion, and a port is not negative. -/
def Fit (items : List Item) : Prop := (∀ i ∈ items, i.Plain) ∧ ∀ i ∈ items, i.Nonneg

theorem fit_append {items items' : List Item} (h : Fit items) (h' : Fit items') :
    Fit (items ++ items') :=
  ⟨List.forall_mem_append.mpr ⟨h.1, h'.1⟩, List.forall_mem_append.mpr ⟨h.2, h'.2⟩⟩

theorem fit_nil : Fit [] := ⟨by simp, by simp⟩

theorem fit_str (s : List UInt8) : Fit [.str s] := by
  simp [Fit, Item.Plain, Item.Nonneg]

theorem fit_port (port : BitVec 16) : Fit [.int (port.setWidth 32)] := by
  have hNonneg : 0 ≤ (port.setWidth 32).toInt := by
    have hPort := port.isLt
    have hNat : (port.setWidth 32).toNat = port.toNat := by
      rw [BitVec.toNat_setWidth]
      omega
    rw [BitVec.toInt_eq_toNat_of_lt (by omega)]
    omega
  simpa [Fit, Item.Plain, Item.Nonneg] using hNonneg

theorem fit_chars {s : String} (h : 0x25 ∉ lit s) : Fit (chars s) := by
  constructor
  · intro i hi
    obtain ⟨c, hc, rfl⟩ := List.mem_map.mp hi
    exact fun hPercent => h (hPercent ▸ hc)
  · intro i hi
    obtain ⟨c, -, rfl⟩ := List.mem_map.mp hi
    trivial

theorem fit_requestItems (t : Target) : Fit (requestItems t) := by
  have hResource : Fit t.resource := by
    unfold Target.resource
    split
    · refine fit_append (fit_append (fit_append (fit_chars (by decide)) (fit_str _)) ?_) (fit_str _)
      split
      · exact fit_append (fit_chars (by decide)) (fit_port _)
      · exact fit_nil
    · exact fit_str _
  have hHost : Fit t.hostLine := by
    unfold Target.hostLine
    split
    · exact fit_append (fit_append (fit_chars (by decide)) (fit_str _)) (fit_chars (by decide))
    · exact fit_nil
  have hGet := fit_append (fit_append (fit_chars (s := "GET ") (by decide)) hResource)
    (fit_chars (s := " HTTP/1.1\r\n") (by decide))
  have hAgent := fit_append (fit_append (fit_append hGet (fit_chars (s := "User-Agent: ") (by decide)))
    (fit_str clientAgent)) (fit_chars (s := "\r\n") (by decide))
  have hLines := fit_append (fit_append hAgent (fit_chars (s := "Accept: */*\r\n") (by decide))) hHost
  exact fit_append (fit_append hLines (fit_chars (s := "Connection: Close\r\n") (by decide)))
    (fit_chars (s := "\r\n") (by decide))

theorem requestText_ne_nil (t : Target) : requestText t ≠ [] := by
  have hGet : chars "GET " = [.char 0x47, .char 0x45, .char 0x54, .char 0x20] := rfl
  simp [requestText, completeText, requestItems, hGet, Item.text]

-- ---------------------------------------------------------------------------
-- The two calls
-- ---------------------------------------------------------------------------

/-- Asked with size 0, `snprintf` says 0, whatever the request. -/
theorem createRequestString_zero (t : Target) (buffer : Mem) :
    httpcCreateRequestString t buffer 0 = (buffer, 0) := by
  rw [createRequestString_eq]
  rfl

/-- With room for the terminator only, it stores that. -/
theorem createRequestString_one (t : Target) (buffer : Mem) :
    httpcCreateRequestString t buffer 1 = (buffer.write8 0 0, 0) := by
  rw [createRequestString_eq, snprintf_eq (fit_requestItems t).1 (by decide), Nat.sub_self,
    List.take_zero, Mem.blit_nil]
  rfl

/-- The client succeeds whenever its allocations do, and its request is the empty string. -/
theorem init_sends_nothing {a : Allocations} {t : Target} {r : Request}
    (h : httpcInitConnectionCommon a t = .ok r) : r.len = 1 ∧ r.payload 0 = 0 ∧ r.sent = [] := by
  unfold httpcInitConnectionCommon at h
  rw [createRequestString_zero] at h
  simp only [Int.lt_irrefl, false_or, Int.zero_add] at h
  rw [if_neg (by decide), if_neg (by decide)] at h
  have hOne : ((1 : Int)).toNat = 1 := rfl
  rw [hOne, createRequestString_one] at h
  split at h
  · cases h
  split at h
  · cases h
  split at h
  · cases h
  split at h
  · cases h
  simp only [ne_eq, not_true_eq_false, if_false, Except.ok.injEq] at h
  subst h
  exact ⟨rfl, Mem.write8_same a.payload 0 0, rfl⟩

/-- Everything can be allocated. -/
def Allocations.enough (payload : Mem) : Allocations :=
  { memMalloc := true, pbufAlloc := true, inOnePiece := true, altcpNew := true, payload }

theorem init_enough (payload : Mem) (t : Target) :
    ∃ r, httpcInitConnectionCommon (.enough payload) t = .ok r := by
  unfold httpcInitConnectionCommon
  rw [createRequestString_zero]
  simp only [Int.lt_irrefl, false_or, Int.zero_add]
  rw [if_neg (by decide), if_neg (by decide)]
  have hOne : ((1 : Int)).toNat = 1 := rfl
  rw [hOne, createRequestString_one]
  exact ⟨_, rfl⟩

-- ---------------------------------------------------------------------------
-- Main result
-- ---------------------------------------------------------------------------

/--
**When `snprintf` measures what it would write.** For every format made of characters, `%s`,
`%d` and `%u`, all arguments and every size: the result is the length of the complete text if and
only if that is the length of the text with `%d` printed like `%u`, cut off to fit into the buffer
with its terminator, and an `int` can hold it. The two texts differ where `%d` gets a negative
number. For the HTTP client: a buffer known to be large enough gets the complete request; but of the
two calls the first one answers 0, and the client sends the empty string, though no request is
empty.
-/
theorem snprintf_measures (buf : Mem) (size : Nat) (t : Target) :
    (∀ items : List Item, (∀ i ∈ items, i.Plain) →
      ((snprintf buf size (formatOf items) (argsOf items)).2 = (completeText items).length
        ↔ min (unsignedText items).length (size - 1) % 2 ^ 32 = (completeText items).length
          ∧ (completeText items).length < 2 ^ 31))
    ∧ (∀ items : List Item, (∀ i ∈ items, i.Nonneg) → unsignedText items = completeText items)
    ∧ ((requestText t).length < size → (requestText t).length < 2 ^ 31 →
        (httpcCreateRequestString t buf size).2 = (requestText t).length
          ∧ (httpcCreateRequestString t buf size).1.slice 0 (requestText t).length = requestText t)
    ∧ (∀ payload, ∃ r, httpcInitConnectionCommon (.enough payload) t = .ok r)
    ∧ ∀ a r, httpcInitConnectionCommon a t = .ok r → r.sent = [] ∧ r.sent ≠ requestText t := by
  refine ⟨fun items hPlain => snprintf_result_iff hPlain buf size, fun items => unsignedText_eq, ?_,
    fun payload => init_enough payload t, ?_⟩
  · intro hSize hInt
    obtain ⟨hPlain, hNonneg⟩ := fit_requestItems t
    rw [createRequestString_eq, snprintf_fits hPlain hNonneg hSize hInt]
    refine ⟨rfl, ?_⟩
    rw [requestText, Mem.slice_write8_of_le _ _ (Nat.le_of_eq (Nat.zero_add _)), Mem.slice_blit]
  · intro a r h
    obtain ⟨-, -, hSent⟩ := init_sends_nothing h
    exact ⟨hSent, hSent ▸ (requestText_ne_nil t).symm⟩

/-- The page `/` of a server, as NaoBrowse asks for it. -/
def rootPage : Target :=
  { useProxy := false, proxyPort := 0, serverName := lit "10.0.2.2", serverPort := 80, uri := lit "/"
    useHost := true }

/-- With 256 bytes the request is complete. Of the number -123456789 both numerals have ten
characters. -/
theorem snprintf_measures_rootPage :
    (httpcCreateRequestString rootPage (fun _ => 0) 256).1.slice 0 (requestText rootPage).length
        = requestText rootPage
      ∧ (snprintf (fun _ => 0) 16 (formatOf [.int (-123456789)]) (argsOf [.int (-123456789)])).2
        = (completeText [.int (-123456789)]).length :=
  ⟨((snprintf_measures (fun _ => 0) 256 rootPage).2.2.1 (by decide +kernel) (by decide +kernel)).2,
    ((snprintf_measures (fun _ => 0) 16 rootPage).1 _ (by simp [Item.Plain])).mpr (by decide +kernel)⟩

/-- With size 0 the answer is 0 instead of 1; and the request for `/` has more than 100
characters, of which none is sent. -/
theorem snprintf_measures_nothing :
    (snprintf (fun _ => 0) 0 (lit "%s") [.str (some (lit "/"))]).2 = 0
      ∧ completeText [.str (lit "/")] = [0x2F]
      ∧ 100 < (requestText rootPage).length
      ∧ (httpcInitConnectionCommon (.enough fun _ => 0xFF) rootPage).toOption.map Request.sent = some [] := by
  decide +kernel

end Nao.HttpClient
