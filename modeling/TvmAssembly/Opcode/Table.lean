import TvmAssembly.StackEffect

/-!
# Opcode tables

The opcodes whose signature is fixed, and those that throw. The first table lists opcodes of one
signature together; a pure opcode only pushes a value.
-/

namespace TvmAssembly.Opcode

def fixedGroups : List (Signature × List String) :=
  [(⟨⟨0, 0⟩, false⟩, ["ACCEPT", "COMMIT", "PRINTSTR"]),
    (⟨⟨0, 1⟩, true⟩, ["BLOCKLT", "FALSE", "GETPARAM", "LTIME", "MYADDR", "NEWC", "NEWDICT", "NIL",
      "NOW", "NULL", "PUSHINT", "PUSHPOW2DEC", "PUSHSLICE", "RANDSEED"]),
    (⟨⟨0, 1⟩, false⟩, ["RANDU256"]),
    (⟨⟨0, 1⟩, true⟩, ["TRUE"]),
    (⟨⟨1, 0⟩, false⟩, ["ADDRAND", "ENDS", "SETCODE", "SETRAND"]),
    (⟨⟨1, 1⟩, false⟩, ["ABS", "ADDCONST", "BBITS", "BDEPTH", "BINDUMP", "BLESS", "BREFS",
      "BREMBITS", "BREMREFS", "CDEPTH", "CTOS", "DEC", "DICTEMPTY", "ENDC", "EQINT", "FIRST",
      "FITS", "GTINT", "HASHCU", "HASHSU", "HEXDUMP", "INC", "INDEX", "INDEX2", "INDEX3", "ISNEG",
      "ISNNEG", "ISNPOS", "ISNULL", "ISPOS", "ISZERO", "LESSINT", "MODPOW2", "MULCONST", "NEGATE",
      "NEQINT", "NOT", "BITNOT", "PARSEMSGADDR", "PLDDICT", "PLDI", "PLDREF", "PLDREFIDX", "PLDU",
      "RAND", "SBITS", "SDEMPTY", "SDEPTH", "SECOND", "SEMPTY", "SGN", "SHA256U", "SREFS", "STONE",
      "STRDUMP", "STSLICECONST", "STZERO", "THIRD", "TLEN", "UFITS"]),
    (⟨⟨1, 2⟩, false⟩, ["BBITREFS", "BREMBITREFS", "LDDICT", "LDGRAMS", "LDI", "LDMSGADDR",
      "LDOPTREF", "LDREF", "LDREFRTOS", "LDSLICE", "LDU", "LDVARUINT32", "REWRITESTDADDR",
      "SBITREFS", "TPOP", "UNPAIR"]),
    (⟨⟨2, 0⟩, false⟩, ["RAWRESERVE", "SENDRAWMSG"]),
    (⟨⟨2, 1⟩, false⟩, ["ADD", "AND", "CMP", "DIV", "DIVC", "DIVR", "EQUAL", "GEQ", "GREATER",
      "INDEXVAR", "LEQ", "LESS", "MAX", "MIN", "MOD", "MUL", "NEQ", "OR", "PAIR", "SCHKBITSQ",
      "SCHKREFSQ", "SDEQ", "SDLEXCMP", "SDSKIPFIRST", "SETINDEX", "SETINDEXQ", "STB", "STBR",
      "STBREF", "STBREFR", "STDICT", "STGRAMS", "STI", "STIR", "STONES", "STOPTREF", "STREF",
      "STREFR", "STSLICE", "STSLICER", "STU", "STUR", "STVARUINT32", "STZEROES", "SUB", "SUBR",
      "TPUSH", "XOR"]),
    (⟨⟨2, 2⟩, false⟩, ["DIVMOD", "LDIX", "LDSLICEX", "LDUX", "MINMAX"]),
    (⟨⟨2, 3⟩, false⟩, ["CDATASIZE", "SDATASIZE"]),
    (⟨⟨3, 0⟩, false⟩, ["RAWRESERVEX"]),
    (⟨⟨3, 1⟩, false⟩, ["CHKSIGNS", "CHKSIGNU", "MULDIV", "MULDIVC", "MULDIVR", "SCHKBITREFSQ",
      "SETINDEXVAR", "SSKIPFIRST", "STUX", "TRIPLE"]),
    (⟨⟨3, 2⟩, false⟩, ["DICTDEL", "DICTIDEL", "DICTUDEL", "MULDIVMOD", "SPLIT"])]

def fixedTable : List (String × Signature) :=
  fixedGroups.flatMap fun (signature, opcodes) => opcodes.map fun opcode => (opcode, signature)

def throwTable : List (String × Signature) :=
  [("THROW", ⟨⟨0, 0⟩, false⟩),
    ("THROWANY", ⟨⟨1, 0⟩, false⟩),
    ("THROWANYIF", ⟨⟨2, 0⟩, false⟩),
    ("THROWANYIFNOT", ⟨⟨2, 0⟩, false⟩),
    ("THROWARG", ⟨⟨1, 0⟩, false⟩),
    ("THROWARGANY", ⟨⟨2, 0⟩, false⟩),
    ("THROWARGANYIF", ⟨⟨3, 0⟩, false⟩),
    ("THROWARGANYIFNOT", ⟨⟨3, 0⟩, false⟩),
    ("THROWARGIF", ⟨⟨2, 0⟩, false⟩),
    ("THROWARGIFNOT", ⟨⟨2, 0⟩, false⟩),
    ("THROWIF", ⟨⟨1, 0⟩, false⟩),
    ("THROWIFNOT", ⟨⟨1, 0⟩, false⟩)]

end TvmAssembly.Opcode
