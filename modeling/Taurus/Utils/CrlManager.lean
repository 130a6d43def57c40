import Taurus.Python.Float

namespace taurus.crl_manager

open taurus.python

/-- What is read of a finished process. -/
structure CompletedProcess where
  returncode : Int
  stdout : List Char

/-- One item of the revocation list. -/
structure Revoked where
  serial : List Char
  revocation_date : List Char
  reason : List Char
  deriving DecidableEq

def serial_label : List Char := "Serial Number:".toList

def date_label : List Char := "Revocation Date:".toList

def reason_label : List Char := "CRL Reason Code:".toList

/-- `line.split(':', 1)[1].strip()`; a line with a label has a colon. -/
def after_colon (line : List Char) : List Char := strip ((line.dropWhile (· ≠ ':')).drop 1)

/-- The date and the reason found so far, after one more line. -/
def scan_line (found : List Char × List Char) (line : List Char) : List Char × List Char :=
  let revocation_date := if isInfix date_label line then after_colon line else found.1
  let reason := if isInfix reason_label line then after_colon line else found.2
  (revocation_date, reason)

/-- The items of the lines from some place on. -/
def revoked_list : List (List Char) → List Revoked
  | [] => []
  | line :: rest =>
    if isInfix serial_label line then
      let serial := strip ((splitOn ':' line).getD 1 [])
      let (revocation_date, reason) := (rest.take 4).foldl scan_line ([], [])
      { serial, revocation_date, reason } :: revoked_list rest
    else revoked_list rest

def is_hex_digit (c : Char) : Bool := c.isDigit || ('a' ≤ c && c ≤ 'f') || ('A' ≤ c && c ≤ 'F')

def hex_value (c : Char) : Nat :=
  if c.isDigit then c.toNat - '0'.toNat else if c ≤ 'F' then
    c.toNat - 'A'.toNat + 10
  else c.toNat - 'a'.toNat + 10

/-- The number written by hexadecimal digits, which may be grouped by single underscores. -/
def hex_digits? (s : List Char) : Option Nat :=
  let groups := splitOn '_' s
  if groups.all fun g => !g.isEmpty && g.all is_hex_digit then
    some (groups.flatten.foldl (fun n c => 16 * n + hex_value c) 0)
  else none

/-- Digits that may follow `0x`. -/
def hex_number? : List Char → Option Nat
  | '0' :: 'x' :: '_' :: ds | '0' :: 'X' :: '_' :: ds | '0' :: 'x' :: ds | '0' :: 'X' :: ds | ds => hex_digits? ds

/-- `int(s, 16)` -/
def int_16? (s : List Char) : Option Int :=
  match strip s with
  | '-' :: ds => (hex_number? ds).map fun n => -(n : Int)
  | '+' :: ds | ds => (hex_number? ds).map fun n => (n : Int)

/-- The groups of `re.finditer(r'Serial Number:\s*([0-9A-Fa-f]+)', text)`; no match
begins inside another one. -/
def found_serials : List Char → List (List Char)
  | [] => []
  | c :: cs =>
    match afterPrefix serial_label (c :: cs) with
    | none => found_serials cs
    | some rest =>
      let digits := (rest.dropWhile isspace).takeWhile is_hex_digit
      if digits = [] then found_serials cs else digits :: found_serials cs

section

-- whether there is a file at `crl_path`, and what `openssl crl -text` returns for it, none where
-- that raises
variable (crl_exists : Bool) (run : Option CompletedProcess)

def check_certificate_revoked (certificate_serial : List Char) : Bool :=
  if !crl_exists then false
  else match run with
  | none => false
  | some result =>
    if result.returncode ≠ 0 then false
    else match int_16? (strip certificate_serial) with
    | none => false
    | some target => (found_serials result.stdout).any fun digits => int_16? digits = some target

def get_revoked_certificates : List Revoked :=
  if !crl_exists then []
  else match run with
  | none => []
  | some result => if result.returncode ≠ 0 then [] else revoked_list (splitOn '\n' result.stdout)

end

end taurus.crl_manager
