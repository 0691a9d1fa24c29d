import PicoSentry.Foundation.Redaction
import PicoSentry.Watch.Normalizer

namespace PicoSentry.Watch.OutputGuard

open Foundation Redaction Normalizer

section Classes

-- [A-Za-z0-9_] and the like.
def inSet (ranges : List (Char × Char)) (c : Char) : Bool := ranges.any fun range => range.1 ≤ c && c ≤ range.2

def signs (s : String) : List (Char × Char) := s.toList.map fun c => (c, c)

def upper : List (Char × Char) := [('A', 'Z')]

def lower : List (Char × Char) := [('a', 'z')]

def numeral : List (Char × Char) := [('0', '9')]

def alnum : List (Char × Char) := upper ++ lower ++ numeral

end Classes

section Patterns

def word (s : String) : Re := .text s.toList

def words (list : List String) : Re := .any (list.map word)

def set (ranges : List (Char × Char)) : Re := .chars (inSet ranges)

def sets (ranges : List (Char × Char)) (least : Nat) (most : Option Nat) : Re := .run (inSet ranges) least most

variable (T : CharTables)

-- \d, \s and [^\s]
def digits (least : Nat) (most : Option Nat) : Re := .run (isDecimal T) least most

def blanks (least : Nat) : Re := .run T.space least none

def solid (c : Char) : Bool := !T.space c

def solids : Re := .run (solid T) 1 none

def keyLine (kind : String) : Re :=
  .all [word ("-----" ++ kind), blanks T 1, .opt (.seq (word "RSA") (blanks T 1)), .opt (.seq (word "PRIVATE") (blanks T 1)),
    word "KEY-----"]

def sshKeyPattern : Re := .seq (keyLine T "BEGIN") (.seq .anything (keyLine T "END"))

def jwtPart : Re := sets (alnum ++ signs "_-") 1 none

def jwtPattern : Re := .all [word "eyJ", jwtPart, word ".", word "eyJ", jwtPart, word ".", jwtPart]

def dbUrlHead : Re := .all [words ["postgres", "mysql", "mongodb", "redis", "mssql"], word "://"]

def dbUrlPattern : Re := .seq dbUrlHead (solids T)

def oauthPattern : Re :=
  .all [.any [.all [word "ya29", set (signs ".-_")], word "ghp_", word "gho_", word "github_pat_", word "glpat-",
    .all [word "gitlab-", sets lower 1 none, word "-token"], .all [word "xox", set (signs "bpas"), word "-"]],
    sets (alnum ++ signs "_.-") 20 none]

def arnHead : Re :=
  .all [word "arn:aws", sets (lower ++ signs "-") 0 none, word ":", sets (lower ++ numeral ++ signs "-") 1 none, word ":",
    sets (lower ++ numeral ++ signs "-") 0 none, word ":", digits T 0 none, word ":"]

def arnPattern : Re := .seq (arnHead T) (solids T)

def apiKeyPattern : Re :=
  .any [.all [words ["AKIA", "AGPA", "AIDA", "AROA", "AIPA", "ANPA", "ANVA", "ASIA"], sets (numeral ++ upper) 16 (some 16)],
    .all [words ["sk", "pk", "rk"], word "_", sets alnum 20 none],
    .all [word "AIza", sets (alnum ++ signs "_-") 35 (some 35)],
    .all [word "ghp_", sets alnum 36 (some 36)]]

def ccPattern : Re :=
  .all [.boundary, .times 3 (.seq (digits T 4 (some 4)) (.opt (.chars fun c => T.space c || c == '-'))), digits T 4 (some 4),
    .boundary]

def ssnPattern : Re :=
  .all [.boundary, digits T 3 (some 3), word "-", digits T 2 (some 2), word "-", digits T 4 (some 4), .boundary]

def passportPattern : Re :=
  .any [.all [.boundary, sets upper 2 (some 2), digits T 7 (some 9), .boundary],
    .all [.boundary, set upper, digits T 8 (some 9), .boundary]]

def cryptoPattern : Re :=
  .any [.all [word "0x", sets (numeral ++ [('a', 'f'), ('A', 'F')]) 40 (some 40)],
    .all [set (signs "13"),
      sets [('a', 'k'), ('m', 'z'), ('A', 'H'), ('J', 'N'), ('P', 'Z'), ('1', '9')] 25 (some 34)],
    .all [word "bc1", set (signs "qQ"), sets alnum 39 (some 59)]]

def internalUrlPattern : Re :=
  .any [.all [.opt (.all [word "http", .opt (word "s"), word "://"]),
      .any [.all [word "10.", digits T 1 (some 3)],
        .all [word "172.", .any [.seq (word "1") (set [('6', '9')]), .seq (word "2") (set numeral), .seq (word "3") (set (signs "01"))]],
        word "192.168"],
      word ".", digits T 1 (some 3), word ".", digits T 1 (some 3)],
    word "localhost", word "127.0.0.1", word "0.0.0.0"]

def ipPattern : Re :=
  .all [.boundary, .times 3 (.seq (digits T 1 (some 3)) (word ".")), digits T 1 (some 3), .boundary]

def dockerSecretHead : Re :=
  .all [words ["DOCKER_", "KUBERNETES_", "K8S_"], sets (upper ++ signs "_") 1 none, blanks T 0, word "=", blanks T 0]

def dockerSecretPattern : Re := .seq (dockerSecretHead T) (solids T)

def envVarHead : Re :=
  .all [.any [.seq (word "AWS_") (words ["SECRET", "ACCESS", "KEY", "SESSION"]),
      .seq (word "GCP_") (words ["KEY", "SECRET", "TOKEN", "CREDENTIALS"]),
      .seq (word "AZURE_") (words ["CLIENT_SECRET", "SUBSCRIPTION", "TENANT", "KEY"]),
      .seq (word "DATABASE_") (words ["URL", "PASSWORD", "URI"]),
      .all [word "SECRET", .opt (word "_"), .opt (words ["KEY", "TOKEN", "VALUE"])],
      .seq (word "API_") (words ["KEY", "SECRET", "TOKEN"]),
      .all [word "TOKEN", .opt (word "_"), .opt (words ["SECRET", "KEY"])],
      word "PASSWORD", word "PRIVATE_KEY"],
    sets (upper ++ signs "_") 0 none, blanks T 0, word "=", blanks T 0]

def envVarPattern : Re := .seq (envVarHead T) (solids T)

def emailPattern : Re :=
  .all [.boundary, sets (alnum ++ signs "._%+-") 1 none, word "@", sets (alnum ++ signs ".-") 1 none, word ".",
    sets (upper ++ lower) 2 none, .boundary]

-- [-.\s]?
def phoneSeparator : Re := .opt (.chars fun c => c == '-' || c == '.' || T.space c)

def phonePattern : Re :=
  .any [.all [word "+", digits T 1 (some 3), phoneSeparator T, .opt (word "("), digits T 1 (some 4), .opt (word ")"),
      phoneSeparator T, digits T 3 (some 4), phoneSeparator T, digits T 3 (some 4)],
    .all [word "(", digits T 3 (some 3), word ")", phoneSeparator T, digits T 3 (some 3), phoneSeparator T, digits T 4 (some 4)],
    .all [word "tel:", .opt (word "+"), set numeral, .run (fun c => inSet (numeral ++ signs ".-") c || T.space c) 1 none]]

end Patterns

section Detect

variable (T : CharTables)

structure Detector where
  violation : Str
  pattern : Re
  redacted : Str

def detector (violation redacted : String) (pattern : Re) : Detector := ⟨violation.toList, pattern, redacted.toList⟩

def detectors : List Detector :=
  [detector "out_exfil_ssh_key" "[PRIVATE-KEY-REDACTED]" (sshKeyPattern T),
   detector "out_pii_jwt" "[JWT-REDACTED]" jwtPattern,
   detector "out_exfil_database_url" "[DB-URL-REDACTED]" (dbUrlPattern T),
   detector "out_exfil_oauth_token" "[OAUTH-TOKEN-REDACTED]" oauthPattern,
   detector "out_pii_aws_arn" "[AWS-ARN-REDACTED]" (arnPattern T),
   detector "out_pii_api_key" "[API-KEY-REDACTED]" apiKeyPattern,
   detector "out_pii_credit_card" "[CC-REDACTED]" (ccPattern T),
   detector "out_pii_ssn" "[SSN-REDACTED]" (ssnPattern T),
   detector "out_pii_passport" "[PASSPORT-REDACTED]" (passportPattern T),
   detector "out_pii_crypto_wallet" "[CRYPTO-WALLET-REDACTED]" cryptoPattern,
   detector "out_exfil_internal_url" "[INTERNAL-URL-REDACTED]" (internalUrlPattern T),
   detector "out_pii_ip_address" "[IP-REDACTED]" (ipPattern T),
   detector "out_exfil_docker_secret" "[K8S-SECRET-REDACTED]" (dockerSecretPattern T),
   detector "out_exfil_env_var" "[ENV-VAR-REDACTED]" (envVarPattern T),
   detector "out_pii_email" "[EMAIL-REDACTED]" emailPattern,
   detector "out_pii_phone" "[PHONE-REDACTED]" (phonePattern T)]

def Detector.matcher (d : Detector) : Matcher Str := d.pattern.replacing T.word d.redacted

def detectStep (found : Str × List Str) (d : Detector) : Str × List Str :=
  if finditer (d.matcher T) found.1 = [] then found else (sub (d.matcher T) found.1, found.2 ++ [d.violation])

def detectPii (text : Str) : Str × List Str := (detectors T).foldl (detectStep T) (text, [])

def handedBack (nfkc : Str → Str) (output : Str) : Str :=
  let redacted := (detectPii T output).1
  if normalize T nfkc output = output then redacted
  else
    let folded := detectPii T (normalize T nfkc redacted)
    if folded.2 = [] then redacted else folded.1

end Detect

end PicoSentry.Watch.OutputGuard
