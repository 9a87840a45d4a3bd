import Highlighter.Grammar

/-! # Built-in grammars

    A few common languages, known without any grammar file. -/

namespace Highlighter.Builtin

/-- A pattern that matches any of some words, standing alone. -/
def anyWord (words : String) : String :=
  "\\b(?:" ++ "|".intercalate (words.splitOn " ") ++ ")\\b"

/-- C, and C++ as far as it goes.  A backslash before the newline carries a line comment on; a
    char literal opens its region as a whole, so that a quote in it never opens a string. -/
def cGrammar : Grammar where
  name := "C"
  extensions := ["c", "h", "cpp", "hpp", "cc", "cxx"]
  escape := some '\\'
  regions :=
    [⟨"line-comment", "//", "$", "comment"⟩,
     ⟨"block-comment", "/\\*", "\\*/", "comment"⟩,
     ⟨"char", "'(?:\\\\(?:x[0-9a-fA-F]+|[0-7]\x7b1,3\x7d|.)|[^\\\\'\\n])'", "", "char"⟩,
     ⟨"string", "\"", "\"", "string"⟩]
  tokens :=
    [⟨"preprocessor", "^[ \\t]*#[ \\t]*\\w+", "preprocessor"⟩,
     ⟨"keyword", anyWord <|
        "auto break case char const continue default do double else enum extern float for " ++
        "goto if inline int long register restrict return short signed sizeof static " ++
        "struct switch typedef union unsigned void volatile while _Alignas _Alignof " ++
        "_Atomic _Bool _Complex _Generic _Imaginary _Noreturn _Static_assert " ++
        "_Thread_local", "keyword"⟩,
     ⟨"cpp-keyword", anyWord <|
        "alignas alignof and and_eq asm bitand bitor bool catch class compl concept " ++
        "consteval constexpr constinit const_cast co_await co_return co_yield decltype " ++
        "delete dynamic_cast explicit export false friend mutable namespace new noexcept " ++
        "not not_eq nullptr operator or or_eq private protected public reinterpret_cast " ++
        "requires static_assert static_cast template this thread_local throw true try " ++
        "typeid typename using virtual xor xor_eq", "keyword"⟩,
     ⟨"type", anyWord <|
        "size_t ptrdiff_t intptr_t uintptr_t int8_t int16_t int32_t int64_t uint8_t " ++
        "uint16_t uint32_t uint64_t FILE", "type"⟩,
     ⟨"null", "\\bNULL\\b", "constant"⟩,
     ⟨"hex", "\\b0[xX][0-9a-fA-F]+[uUlL]*\\b", "number"⟩,
     ⟨"float", "\\b\\d+\\.\\d*(?:[eE][+-]?\\d+)?[fFlL]?", "number"⟩,
     ⟨"float-fraction", "\\.\\d+(?:[eE][+-]?\\d+)?[fFlL]?\\b", "number"⟩,
     ⟨"integer", "\\b\\d+[uUlL]*\\b", "number"⟩,
     ⟨"operator", "[+\\-*/%&|^!<>=~?:]+", "operator"⟩]

/-- Rust.  Block comments do not nest: the first close ends them.  Raw strings are those with a
    single hash. -/
def rustGrammar : Grammar where
  name := "Rust"
  extensions := ["rs"]
  escape := some '\\'
  regions :=
    [⟨"line-comment", "//", "$", "comment"⟩,
     ⟨"block-comment", "/\\*", "\\*/", "comment"⟩,
     ⟨"raw-string", "b?r#\"", "\"#", "string"⟩,
     ⟨"char",
        "b?'(?:\\\\(?:x[0-9a-fA-F]\x7b2\x7d|u\\\x7b[0-9a-fA-F]\x7b1,6\x7d\\\x7d|.)|[^\\\\'\\n])'",
        "", "char"⟩,
     ⟨"string", "b?\"", "\"", "string"⟩]
  tokens :=
    [⟨"attribute", "#!?\\[[^\\]\\n]*\\]", "attribute"⟩,
     ⟨"lifetime", "'\\w+", "lifetime"⟩,
     ⟨"macro", "\\b\\w+!", "macro"⟩,
     ⟨"keyword", anyWord <|
        "as async await break const continue crate dyn else enum extern false fn for if " ++
        "impl in let loop match mod move mut pub ref return self Self static struct super " ++
        "trait true type union unsafe use where while", "keyword"⟩,
     ⟨"type", anyWord <|
        "bool char str u8 u16 u32 u64 u128 usize i8 i16 i32 i64 i128 isize f32 f64 String " ++
        "Vec Box Rc Arc Option Result Some None Ok Err", "type"⟩,
     ⟨"type-name", "\\b[A-Z][a-zA-Z0-9_]*\\b", "type"⟩,
     ⟨"hex", "\\b0x[0-9a-fA-F_]+\\b", "number"⟩,
     ⟨"binary", "\\b0b[01_]+\\b", "number"⟩,
     ⟨"octal", "\\b0o[0-7_]+\\b", "number"⟩,
     ⟨"float", "\\b\\d[\\d_]*\\.\\d[\\d_]*(?:[eE][+-]?\\d+)?\\b", "number"⟩,
     ⟨"integer",
        "\\b\\d[\\d_]*(?:u8|u16|u32|u64|u128|usize|i8|i16|i32|i64|i128|isize)?\\b", "number"⟩,
     ⟨"operator", "[+\\-*/%&|^!<>=@]+", "operator"⟩]

/-- TOML; the strings with three quotes come before those with one. -/
def tomlGrammar : Grammar where
  name := "TOML"
  extensions := ["toml"]
  escape := some '\\'
  regions :=
    [⟨"comment", "#", "$", "comment"⟩,
     ⟨"multiline-basic", "\"\"\"", "\"\"\"", "string"⟩,
     ⟨"multiline-literal", "'''", "'''", "string"⟩,
     ⟨"basic-string", "\"", "\"", "string"⟩,
     ⟨"literal-string", "'", "'", "string"⟩]
  tokens :=
    [⟨"table", "^[ \\t]*\\[\\[?[^\\]\\n]+\\]\\]?", "section"⟩,
     ⟨"boolean", "\\b(?:true|false)\\b", "constant"⟩,
     ⟨"datetime",
        "\\d\x7b4\x7d-\\d\x7b2\x7d-\\d\x7b2\x7d(?:[T ]\\d\x7b2\x7d:\\d\x7b2\x7d:\\d\x7b2\x7d" ++
        "(?:\\.\\d+)?(?:Z|[+-]\\d\x7b2\x7d:\\d\x7b2\x7d)?)?", "number"⟩,
     ⟨"time", "\\d\x7b2\x7d:\\d\x7b2\x7d:\\d\x7b2\x7d(?:\\.\\d+)?", "number"⟩,
     ⟨"hex", "\\b0x[0-9a-fA-F_]+\\b", "number"⟩,
     ⟨"binary", "\\b0b[01_]+\\b", "number"⟩,
     ⟨"octal", "\\b0o[0-7_]+\\b", "number"⟩,
     ⟨"float", "[+-]?(?:\\d[\\d_]*\\.\\d[\\d_]*(?:[eE][+-]?\\d+)?|\\binf\\b|\\bnan\\b)", "number"⟩,
     ⟨"integer", "[+-]?\\b\\d[\\d_]*\\b", "number"⟩,
     ⟨"key", "^[ \\t]*[A-Za-z0-9_.-]+", "key"⟩]

/-- All of them, in the order in which they claim extensions. -/
def grammars : List Grammar := [rustGrammar, cGrammar, tomlGrammar]

end Highlighter.Builtin
