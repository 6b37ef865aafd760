import NetDisk.Client
import NetDisk.Dispatch

/-!
# Messages on a short connection

Each end calls `recv` once, and reads a C string from where the bytes went.
-/

namespace NetDisk

open BrpcClient (ofCharPtr ofCharPtr_eq eq_cStr_of_ofCharPtr)
open ClientMain Mpthread

variable {ρ : Type} (j : Jsoncpp ρ)

/-! ## One message -/

/-- The pieces in which the bytes of `msg` come. -/
structure Cut (msg : Bytes) (pieces : List Bytes) : Prop where
  flatten_eq : pieces.flatten = msg
  ne_nil : ∀ piece ∈ pieces, piece ≠ []

/-- What one call of `recv` gives: the first piece, as far as there is room. -/
def recv (size : Nat) (pieces : List Bytes) : Bytes := (pieces.head?.getD []).take size

/-- The text comes in one piece, fits, and the memory behind it ends the string. -/
def InOne (size : Nat) (mem msg : Bytes) (pieces : List Bytes) : Prop :=
  pieces = [msg] ∧ msg.length ≤ size ∧ mem[msg.length]? = some 0

section
variable {size : Nat} {mem msg : Bytes} {pieces : List Bytes} (hcut : Cut msg pieces) (hne : msg ≠ [])
include hcut hne

theorem recv_eq_iff : recv size pieces = msg ↔ pieces = [msg] ∧ msg.length ≤ size := by
  have hflat := hcut.flatten_eq
  constructor
  · intro h
    cases pieces with
    | nil => exact absurd hflat.symm hne
    | cons piece rest =>
      change piece.take size = msg at h
      rw [List.flatten_cons] at hflat
      have hlen := congrArg List.length hflat
      have hlen' := congrArg List.length h
      rw [List.length_append] at hlen
      rw [List.length_take] at hlen'
      have hrest : rest.flatten = [] := List.length_eq_zero_iff.mp (by omega)
      have hpiece : piece = msg := by rw [← hflat, hrest, List.append_nil]
      have hnil : rest = [] := by
        rw [List.eq_nil_iff_forall_not_mem]
        intro p hp
        exact hcut.ne_nil p (List.mem_cons_of_mem _ hp) (List.flatten_eq_nil_iff.mp hrest p hp)
      rw [hpiece, hnil]
      exact ⟨rfl, by omega⟩
  · rintro ⟨rfl, hlen⟩
    exact List.take_of_length_le hlen

theorem recv_read_iff (h0 : (0 : Byte) ∉ msg) :
    recv size pieces = msg ∧ ofCharPtr (overlay mem (recv size pieces)) = some msg ↔ InOne size mem msg pieces := by
  unfold InOne
  rw [← and_assoc, ← recv_eq_iff hcut hne]
  refine and_congr_right fun hrecv => ?_
  rw [hrecv, overlay, ofCharPtr_eq h0, List.head?_drop]

end

/-! ## An exchange -/

/-- Neither cut short nor followed by other bytes, and read as the value that was written. `buf` is the memory
from the buffer on. -/
structure Framed (received buf msg : Bytes) (v : Json ρ) : Prop where
  whole : received = msg
  read_eq : ofCharPtr buf = some msg
  parse_eq : j.parse (cStr buf) = (true, v)

/-- What jsoncpp does with a value: its text is read back as the value, and has no NUL in it. -/
structure Styled (v : Json ρ) : Prop where
  parse_eq : j.parse (j.toStyledString v) = (true, v)
  ne_nil : j.toStyledString v ≠ []
  no_nul : (0 : Byte) ∉ j.toStyledString v

variable {j}

theorem framed_iff {size : Nat} {mem : Bytes} {pieces : List Bytes} {v : Json ρ} (hv : Styled j v)
    (hcut : Cut (j.toStyledString v) pieces) :
    Framed j (recv size pieces) (overlay mem (recv size pieces)) (j.toStyledString v) v ↔
      InOne size mem (j.toStyledString v) pieces := by
  rw [← recv_read_iff hcut hv.ne_nil hv.no_nul]
  constructor
  · exact fun h => ⟨h.whole, h.read_eq⟩
  · rintro ⟨hwhole, hread⟩
    refine ⟨hwhole, hread, ?_⟩
    rw [← eq_cStr_of_ofCharPtr hread]
    exact hv.parse_eq

variable (j)

/-- The server works on the request that the client built, and the client gets the response to it. `stack` is the
memory behind the server's buffer, and `resStack` the memory from the client's buffer on. -/
structure Exchanged (fl : Flags) (stack resStack : Bytes) (reqPieces resPieces : List Bytes) (req res : Json ρ) :
    Prop where
  request : Framed j (recv recvBufSize reqPieces) (recvBuf stack (recv recvBufSize reqPieces))
    (sendShortReq (j.toStyledString req)) req
  request_eq : ∀ clientFd, ∃ v, (∀ key, v.member key = req.member key) ∧
    recvClientMsg j fl stack (recv recvBufSize reqPieces) clientFd = RegisterView.Process j fl v clientFd
  response : Framed j (recv responseMaxLen resPieces) (resBuf resStack (recv responseMaxLen resPieces))
    (j.toStyledString res) res
  response_eq : parseResponse j resStack (recv responseMaxLen resPieces) = some (some res)

variable {j} {stack resStack : Bytes} {reqPieces resPieces : List Bytes} {req res : Json ρ}

/-- A request and its response are exchanged exactly when each of them comes in one piece that fits the buffer,
with a NUL behind it. -/
theorem exchanged_iff (fl : Flags) {usr passwd : Bytes} (hreq : reqJson MsgType.register.toInt usr passwd = .ok req)
    (hreqStyled : Styled j req) (hresStyled : Styled j res) (hreqCut : Cut (sendShortReq (j.toStyledString req)) reqPieces)
    (hresCut : Cut (j.toStyledString res) resPieces) :
    Exchanged j fl stack resStack reqPieces resPieces req res ↔
      InOne recvBufSize (List.replicate recvBufSize 0 ++ stack) (j.toStyledString req) reqPieces ∧
      InOne responseMaxLen resStack (j.toStyledString res) resPieces := by
  have hsent : sendShortReq (j.toStyledString req) = j.toStyledString req := cStr_eq_self hreqStyled.no_nul
  rw [hsent] at hreqCut
  rw [← framed_iff hreqStyled hreqCut, ← framed_iff hresStyled hresCut]
  constructor
  · intro h
    have hframed := h.request
    rw [hsent] at hframed
    exact ⟨hframed, h.response⟩
  · rintro ⟨hframed, hres⟩
    refine ⟨?_, fun clientFd => ?_, hres, ?_⟩
    · rw [hsent]
      exact hframed
    · obtain ⟨v, _, hsame, hproc⟩ := Control.Process_req j fl hreq hframed.parse_eq clientFd
      exact ⟨v, hsame, hproc⟩
    · have hparse := hres.parse_eq
      rw [← eq_cStr_of_ofCharPtr hres.read_eq] at hparse
      unfold parseResponse resBuf
      rw [hres.read_eq, Option.map_some, hparse]

/-! ### One registration -/

namespace OneReg

def reqText : Bytes :=
  ascii "\x7b\n\t\"Name\" : \"bob\",\n\t\"Passwd\" : \"pw\",\n\t\"Type\" : 0\n\x7d\n"

def resText : Bytes := ascii "\x7b\n\t\"Response\" : \"Success: regist usr bob\"\n\x7d\n"

def request : Json Empty :=
  .obj [(ascii "Type", .int 0), (ascii "Name", .str (ascii "bob")), (ascii "Passwd", .str (ascii "pw"))]

def response : Json Empty := .obj [(ascii "Response", .str (ascii "Success: regist usr bob"))]

/-- jsoncpp, as far as these two values go. -/
def jsoncpp : Jsoncpp Empty where
  parse text := if text = reqText then (true, request) else if text = resText then (true, response) else (false, .null)
  toStyledString v := match v.member "Response" with
    | .str _ => resText
    | _ => reqText
  realInt x := x.elim
  realText x := x.elim

theorem reqText_eq : jsoncpp.toStyledString request = reqText := by decide

theorem resText_eq : jsoncpp.toStyledString response = resText := by decide

theorem styled_req : Styled jsoncpp request where
  parse_eq := by
    rw [reqText_eq]
    unfold jsoncpp
    dsimp only
    rw [if_pos rfl]
  ne_nil := by decide
  no_nul := by decide

theorem styled_res : Styled jsoncpp response where
  parse_eq := by
    rw [resText_eq]
    unfold jsoncpp
    dsimp only
    rw [if_neg (by decide), if_pos rfl]
  ne_nil := by decide
  no_nul := by decide

end OneReg

theorem exchanged_whole : Exchanged OneReg.jsoncpp .short [] (List.replicate 1024 0) [OneReg.reqText] [OneReg.resText]
      OneReg.request OneReg.response ↔
    InOne recvBufSize (List.replicate recvBufSize 0 ++ []) OneReg.reqText [OneReg.reqText] ∧
    InOne responseMaxLen (List.replicate 1024 0) OneReg.resText [OneReg.resText] :=
  exchanged_iff .short (Control.reqJson_members 0 (ascii "bob") (ascii "pw")) OneReg.styled_req OneReg.styled_res
    ⟨by decide, by decide⟩ ⟨by decide, by decide⟩

/-- Of a request in two pieces the server reads the first. -/
theorem first_piece_read : ¬ Exchanged OneReg.jsoncpp .short [] (List.replicate 1024 0)
    [OneReg.reqText.take 8, OneReg.reqText.drop 8] [OneReg.resText] OneReg.request OneReg.response := by
  intro h
  exact absurd h.request.whole (by decide)

end NetDisk
